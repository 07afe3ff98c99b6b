import Mathlib.Tactic.ByContra
import Mathlib.Tactic.SplitIfs

/-!
# The order of texts

Texts are compared character by character.  Their encodings compare in the same way byte by byte,
since a character with a larger number differs from one with a smaller number in a byte that both
have, and is larger there.
-/

namespace HdlExpr.Text

def bytes (s : String) : List UInt8 := s.toUTF8.data.toList

private theorem bytes_eq_flatMap (s : String) :
    bytes s = s.toList.flatMap String.utf8EncodeChar := by
  rw [bytes, String.toUTF8, ← String.utf8Encode_toList, List.utf8Encode]
  simp

private theorem ofNat_lt_ofNat_iff {m n : Nat} (hm : m < 256) (hn : n < 256) :
    UInt8.ofNat m < UInt8.ofNat n ↔ m < n := by
  rw [UInt8.lt_iff_toNat_lt, UInt8.toNat_ofNat', UInt8.toNat_ofNat', Nat.mod_eq_of_lt hm,
    Nat.mod_eq_of_lt hn]

private theorem ofNat_eq_ofNat_iff {m n : Nat} (hm : m < 256) (hn : n < 256) :
    UInt8.ofNat m = UInt8.ofNat n ↔ m = n := by
  rw [← UInt8.toNat_inj, UInt8.toNat_ofNat', UInt8.toNat_ofNat', Nat.mod_eq_of_lt hm,
    Nat.mod_eq_of_lt hn]

/-- The larger of two characters is the larger in the first byte in which their codes differ,
whatever comes behind the codes. -/
theorem encode_append_lt {c d : Char} (h : c < d) (xs ys : List UInt8) :
    String.utf8EncodeChar c ++ xs < String.utf8EncodeChar d ++ ys := by
  have hlt : c.val.toNat < d.val.toNat := h
  have hmax : d.val.toNat < 1114112 := by
    rcases d.valid with h | h
    · exact Nat.lt_trans h (by decide)
    · exact h.2
  unfold String.utf8EncodeChar
  generalize c.val.toNat = m at hlt
  generalize d.val.toNat = n at hlt hmax
  -- The digits to base 64 that the bytes hold, each from the one before.
  have hdigit (k : Nat) : k / 4096 = k / 64 / 64 ∧ k / 262144 = k / 64 / 64 / 64 := by omega
  simp only [hdigit]
  split_ifs <;>
    simp (disch := omega) only [List.cons_append, List.nil_append, List.cons_lt_cons_iff,
      ofNat_lt_ofNat_iff, ofNat_eq_ofNat_iff] <;>
    omega

private theorem flatMap_encode_lt {cs ds : List Char} (h : cs < ds) :
    cs.flatMap String.utf8EncodeChar < ds.flatMap String.utf8EncodeChar := by
  induction cs generalizing ds with
  | nil =>
    cases ds with
    | nil => exact absurd h (List.lt_irrefl [])
    | cons d ds =>
      obtain ⟨x, xs, hx⟩ := List.exists_cons_of_ne_nil (String.utf8EncodeChar_ne_nil (c := d))
      rw [List.flatMap_cons, List.flatMap_nil, hx, List.cons_append]
      exact List.nil_lt_cons x _
  | cons c cs ih =>
    cases ds with
    | nil => exact absurd h (List.not_lt_nil _)
    | cons d ds =>
      rw [List.flatMap_cons, List.flatMap_cons]
      rcases List.cons_lt_cons_iff.mp h with hlt | ⟨rfl, hlt⟩
      · exact encode_append_lt hlt _ _
      · exact List.append_left_lt (ih hlt)

private theorem bytes_lt_iff {a b : String} : bytes a < bytes b ↔ a < b := by
  rw [bytes_eq_flatMap, bytes_eq_flatMap]
  constructor
  · intro h
    by_contra hab
    rcases List.le_iff_lt_or_eq.mp hab with hba | heq
    · exact absurd h (List.lt_asymm (flatMap_encode_lt hba))
    · rw [heq] at h
      exact List.lt_irrefl _ h
  · exact flatMap_encode_lt

/-- Texts are in the order of their bytes. -/
theorem bytes_le_iff {a b : String} : bytes a ≤ bytes b ↔ a ≤ b := not_congr bytes_lt_iff

end HdlExpr.Text

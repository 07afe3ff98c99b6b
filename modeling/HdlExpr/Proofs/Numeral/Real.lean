import Mathlib.Data.String.Basic
import HdlExpr.Proofs.Numeral.Parts

/-!
# Real numbers

What a real number looks like: a sign perhaps, digits with a point perhaps, and perhaps an exponent
with digits of its own.  A scan from the left finds the longest start of a text that looks so.  It
gives up an exponent without digits, but not what stands before it.  Whoever can read all numbers
of this form reads the number at the first attempt.
-/

namespace HdlExpr.Numeral

/-! ## The form -/

def IsSign (cs : List Char) : Prop := cs ∈ [[], ['+'], ['-']]

def AllDigits (cs : List Char) : Prop := ∀ c ∈ cs, IsDigit 10 c

/-- A point with any number of digits behind it, or nothing. -/
inductive IsFraction : List Char → Prop
  | none : IsFraction []
  | point {digits : List Char} (h : AllDigits digits) : IsFraction ('.' :: digits)

/-- An exponent with at least one digit, or nothing. -/
inductive IsExponent : List Char → Prop
  | none : IsExponent []
  | power {e : Char} {sign digits : List Char} (he : e = 'e' ∨ e = 'E') (hsign : IsSign sign)
      (hdigits : AllDigits digits) (hne : digits ≠ []) : IsExponent (e :: (sign ++ digits))

/-- A real number, with at least one digit before the exponent. -/
inductive IsReal : List Char → Prop
  | mk {sign whole fraction exponent : List Char} (hsign : IsSign sign) (hwhole : AllDigits whole)
      (hfraction : IsFraction fraction) (hdigit : ∃ c ∈ whole ++ fraction, IsDigit 10 c)
      (hexponent : IsExponent exponent) : IsReal (sign ++ (whole ++ (fraction ++ exponent)))

/-! ## Scanning digits and signs -/

private theorem digitsLength_append {digits : List Char} (h : AllDigits digits) (tail : List Char) :
    digitsLength (digits ++ tail) = digits.length + digitsLength tail := by
  have hall : ∀ c ∈ digits, isDigit c = true := fun c hc => (isDigit_iff c).mpr (h c hc)
  simp [digitsLength, List.takeWhile_append_of_pos hall]

private theorem digitsLength_eq_zero {c : Char} (h : ¬IsDigit 10 c) (tail : List Char) :
    digitsLength (c :: tail) = 0 := by
  rw [← isDigit_iff] at h
  simp [digitsLength, h]

private theorem take_digitsLength (cs : List Char) :
    cs.take (digitsLength cs) = cs.takeWhile isDigit :=
  (List.prefix_iff_eq_take.mp (List.takeWhile_prefix isDigit)).symm

private theorem allDigits_take (cs : List Char) : AllDigits (cs.take (digitsLength cs)) := by
  rw [take_digitsLength]
  intro c hc
  exact (isDigit_iff c).mp (List.mem_takeWhile_imp hc)

private theorem length_take_digits (cs : List Char) :
    (cs.take (digitsLength cs)).length = digitsLength cs := by
  rw [take_digitsLength]
  rfl

private theorem exists_digit {cs : List Char} (h : digitsLength cs ≠ 0) :
    ∃ c ∈ cs.take (digitsLength cs), IsDigit 10 c := by
  have hne : cs.take (digitsLength cs) ≠ [] := by
    intro hnil
    apply h
    rw [← length_take_digits, hnil, List.length_nil]
  obtain ⟨c, hc⟩ := List.exists_mem_of_ne_nil _ hne
  exact ⟨c, hc, allDigits_take cs c hc⟩

private theorem isSign_take (cs : List Char) : IsSign (cs.take (signLength cs)) := by
  unfold signLength
  split <;> simp [IsSign]

private theorem signLength_append {sign tail : List Char} (hsign : IsSign sign)
    (htail : ∀ c ∈ tail.head?, c ≠ '+' ∧ c ≠ '-') :
    signLength (sign ++ tail) = sign.length := by
  simp only [IsSign, List.mem_cons, List.not_mem_nil, or_false] at hsign
  rcases hsign with rfl | rfl | rfl
  · cases tail with
    | nil => rfl
    | cons c tail =>
      obtain ⟨hplus, hminus⟩ := htail c rfl
      simp [signLength, hplus, hminus]
  · rfl
  · rfl

private theorem isDigit_ne {c : Char} (h : IsDigit 10 c) : c ≠ '+' ∧ c ≠ '-' ∧ c ≠ '.' := by
  refine ⟨?_, ?_, ?_⟩ <;> rintro rfl <;> revert h <;> decide

/-! ## What the scan finds has the form -/

private theorem isFraction_take (cs : List Char) : IsFraction (cs.take (fractionLength cs)) := by
  unfold fractionLength
  split
  · exact .point (allDigits_take _)
  · exact .none

private theorem isExponent_take (cs : List Char) : IsExponent (cs.take (exponentLength cs)) := by
  cases cs with
  | nil => exact .none
  | cons e rest =>
    simp only [exponentLength]
    split
    case isFalse => exact .none
    case isTrue he =>
      split
      case isTrue => exact .none
      case isFalse hdigits =>
        simp only [Bool.or_eq_true, beq_iff_eq] at he
        obtain ⟨c, hc, -⟩ := exists_digit hdigits
        have hcut : (e :: rest).take (1 + signLength rest +
            digitsLength (rest.drop (signLength rest))) =
            e :: (rest.take (signLength rest) ++ (rest.drop (signLength rest)).take
              (digitsLength (rest.drop (signLength rest)))) := by
          rw [Nat.add_assoc, Nat.add_comm 1, List.take_succ_cons, List.take_add]
        rw [hcut]
        exact .power he (isSign_take rest) (allDigits_take _) (List.ne_nil_of_mem hc)

private theorem exists_digit_fraction {cs : List Char} (h : fractionLength cs - 1 ≠ 0) :
    ∃ c ∈ cs.take (fractionLength cs), IsDigit 10 c := by
  revert h
  unfold fractionLength
  split
  · intro h
    obtain ⟨c, hc, hdigit⟩ := exists_digit (by simpa using h)
    exact ⟨c, List.mem_cons_of_mem _ hc, hdigit⟩
  · simp

private theorem isReal_take {cs : List Char} (h : realPrefix cs ≠ 0) :
    IsReal (cs.take (realPrefix cs)) := by
  revert h
  unfold realPrefix
  extract_lets sign whole fraction mantissa
  split
  case isTrue => simp
  case isFalse hdigits =>
    intro _
    have hcut : cs.take (mantissa + exponentLength (cs.drop mantissa)) =
        cs.take sign ++ ((cs.drop sign).take whole ++ ((cs.drop (sign + whole)).take fraction ++
          (cs.drop mantissa).take (exponentLength (cs.drop mantissa)))) := by
      simp only [mantissa, List.take_add, List.append_assoc]
    rw [hcut]
    refine .mk (isSign_take cs) (allDigits_take _) (isFraction_take _) ?_ (isExponent_take _)
    by_cases hwhole : whole = 0
    · have hbehind : fractionLength (cs.drop (sign + whole)) - 1 ≠ 0 := by omega
      obtain ⟨c, hc, hdigit⟩ := exists_digit_fraction hbehind
      exact ⟨c, List.mem_append_right _ hc, hdigit⟩
    · obtain ⟨c, hc, hdigit⟩ := exists_digit hwhole
      exact ⟨c, List.mem_append_left _ hc, hdigit⟩

/-! ## Nothing longer has the form -/

private theorem exponentLength_power {e : Char} {sign digits : List Char} (he : e = 'e' ∨ e = 'E')
    (hsign : IsSign sign) (hdigits : AllDigits digits) (hne : digits ≠ []) (tail : List Char) :
    exponentLength (e :: (sign ++ digits) ++ tail) =
      (e :: (sign ++ digits)).length + digitsLength tail := by
  have hlength : digits.length ≠ 0 := fun h => hne (List.length_eq_zero_iff.mp h)
  have hstart : ∀ c ∈ (digits ++ tail).head?, c ≠ '+' ∧ c ≠ '-' := by
    cases digits with
    | nil => exact absurd rfl hne
    | cons d digits =>
      intro c hc
      obtain rfl : d = c := by simpa using hc
      obtain ⟨hplus, hminus, -⟩ := isDigit_ne (hdigits d List.mem_cons_self)
      exact ⟨hplus, hminus⟩
  have hletter : (e == 'e' || e == 'E') = true := by simpa using he
  rw [List.cons_append, List.append_assoc]
  simp only [exponentLength, hletter, if_true, signLength_append hsign hstart, List.drop_left,
    digitsLength_append hdigits, List.length_cons, List.length_append]
  rw [if_neg (by omega)]
  omega

/-- Behind the sign the scan goes on as if there were none. -/
theorem realPrefix_append {sign tail : List Char} (hsign : IsSign sign)
    (htail : ∀ c ∈ tail.head?, c ≠ '+' ∧ c ≠ '-') :
    realPrefix (sign ++ tail) =
      let whole := digitsLength tail
      let fraction := fractionLength (tail.drop whole)
      if whole + (fraction - 1) = 0 then 0
      else sign.length + (whole + fraction) + exponentLength (tail.drop (whole + fraction)) := by
  simp only [realPrefix, signLength_append hsign htail, List.drop_left, Nat.add_assoc,
    List.drop_length_add_append]

/-- The scan takes at least the digits and the point that are there, and no more than these when
something else follows. -/
theorem mantissa_scanned {whole fraction : List Char} (hwhole : AllDigits whole)
    (hfraction : IsFraction fraction) (hdigit : ∃ c ∈ whole ++ fraction, IsDigit 10 c)
    (tail : List Char) :
    let digits := digitsLength (whole ++ (fraction ++ tail))
    let behind := fractionLength ((whole ++ (fraction ++ tail)).drop digits)
    digits + (behind - 1) ≠ 0 ∧ whole.length + fraction.length ≤ digits + behind ∧
      ((∀ c ∈ tail.head?, ¬IsDigit 10 c ∧ c ≠ '.') →
        digits + behind = whole.length + fraction.length) := by
  obtain ⟨c, hc, hdigit⟩ := hdigit
  cases hfraction with
  | none =>
    have hlength : whole.length ≠ 0 := by
      rw [List.append_nil] at hc
      exact Nat.ne_of_gt (List.length_pos_of_mem hc)
    rw [List.nil_append, digitsLength_append hwhole]
    dsimp only
    refine ⟨by omega, by simp; omega, fun hstop => ?_⟩
    cases tail with
    | nil => simp [digitsLength, fractionLength]
    | cons d tail =>
      obtain ⟨hd, hpoint⟩ := hstop d rfl
      simp [digitsLength_eq_zero hd, fractionLength, hpoint]
  | @point digits hdigits =>
    have hpoint : ¬IsDigit 10 '.' := by decide
    have hlength : whole.length + digits.length ≠ 0 := by
      have hmem : c ∈ whole ++ digits := by
        rw [List.mem_append, List.mem_cons] at hc
        rw [List.mem_append]
        exact hc.imp_right fun h => h.resolve_left (isDigit_ne hdigit).2.2
      rw [← List.length_append]
      exact Nat.ne_of_gt (List.length_pos_of_mem hmem)
    rw [digitsLength_append hwhole, List.cons_append, digitsLength_eq_zero hpoint, Nat.add_zero]
    simp only [List.drop_left, fractionLength, digitsLength_append hdigits, List.length_cons]
    refine ⟨by omega, by omega, fun hstop => ?_⟩
    cases tail with
    | nil => simp [digitsLength]
    | cons d tail => rw [digitsLength_eq_zero (hstop d rfl).1, Nat.add_zero]

private theorem head_ne_sign {whole fraction : List Char} (hwhole : AllDigits whole)
    (hfraction : IsFraction fraction) (hne : whole ++ fraction ≠ []) (tail : List Char) :
    ∀ c ∈ (whole ++ (fraction ++ tail)).head?, c ≠ '+' ∧ c ≠ '-' := by
  intro c hc
  cases whole with
  | cons d whole =>
    obtain rfl : d = c := by simpa using hc
    obtain ⟨hplus, hminus, -⟩ := isDigit_ne (hwhole d List.mem_cons_self)
    exact ⟨hplus, hminus⟩
  | nil =>
    cases hfraction with
    | none => exact absurd rfl hne
    | point =>
      obtain rfl : '.' = c := by simpa using hc
      decide

theorem IsReal.length_le {start : List Char} (h : IsReal start) (rest : List Char) :
    start.length ≤ realPrefix (start ++ rest) := by
  obtain @⟨sign, whole, fraction, exponent, hsign, hwhole, hfraction, hdigit, hexponent⟩ := h
  have hne : whole ++ fraction ≠ [] := by
    obtain ⟨c, hc, -⟩ := hdigit
    exact List.ne_nil_of_mem hc
  have hstart := head_ne_sign hwhole hfraction hne (exponent ++ rest)
  obtain ⟨hsome, hle, hexact⟩ := mantissa_scanned hwhole hfraction hdigit (exponent ++ rest)
  simp only [List.append_assoc, List.length_append]
  rw [realPrefix_append hsign hstart]
  dsimp only
  rw [if_neg hsome]
  cases hexponent with
  | none =>
    rw [List.length_nil]
    omega
  | @power e esign digits he hesign hdigits hdne =>
    -- The letter ends the digits, so the exponent is scanned from its start on.
    have hletter : ∀ c ∈ (e :: (esign ++ digits) ++ rest).head?, ¬IsDigit 10 c ∧ c ≠ '.' := by
      intro c hc
      obtain rfl : e = c := by simpa using hc
      rcases he with rfl | rfl <;> decide
    rw [hexact hletter, List.drop_length_add_append, List.drop_left,
      exponentLength_power he hesign hdigits hdne]
    omega

private theorem digitsLength_le (cs : List Char) : digitsLength cs ≤ cs.length :=
  (List.takeWhile_prefix isDigit).length_le

private theorem signLength_le (cs : List Char) : signLength cs ≤ cs.length := by
  unfold signLength
  split <;> simp

private theorem fractionLength_le (cs : List Char) : fractionLength cs ≤ cs.length := by
  unfold fractionLength
  split
  · simp [digitsLength_le]
  · simp

private theorem exponentLength_le (cs : List Char) : exponentLength cs ≤ cs.length := by
  cases cs with
  | nil => simp [exponentLength]
  | cons e rest =>
    have hsign := signLength_le rest
    have hdigits := digitsLength_le (rest.drop (signLength rest))
    rw [List.length_drop] at hdigits
    simp only [exponentLength, List.length_cons]
    split
    · split <;> omega
    · omega

private theorem realPrefix_le (cs : List Char) : realPrefix cs ≤ cs.length := by
  unfold realPrefix
  extract_lets sign whole fraction mantissa
  have hsign : sign ≤ cs.length := signLength_le cs
  have hwhole : whole ≤ cs.length - sign := by
    simpa using digitsLength_le (cs.drop sign)
  have hfraction : fraction ≤ cs.length - (sign + whole) := by
    simpa using fractionLength_le (cs.drop (sign + whole))
  have hexponent : exponentLength (cs.drop mantissa) ≤ cs.length - mantissa := by
    simpa using exponentLength_le (cs.drop mantissa)
  split <;> omega

theorem IsReal.ne_nil {cs : List Char} (h : IsReal cs) : cs ≠ [] := by
  obtain @⟨sign, whole, fraction, exponent, -, -, -, ⟨c, hc, -⟩, -⟩ := h
  have hmem : c ∈ sign ++ (whole ++ (fraction ++ exponent)) := by
    rw [← List.append_assoc whole]
    exact List.mem_append_right _ (List.mem_append_left _ hc)
  exact List.ne_nil_of_mem hmem

private theorem isReal_iff (cs : List Char) : IsReal cs ↔ cs ≠ [] ∧ realPrefix cs = cs.length := by
  constructor
  · intro h
    have hle := h.length_le []
    rw [List.append_nil] at hle
    exact ⟨h.ne_nil, Nat.le_antisymm (realPrefix_le cs) hle⟩
  · rintro ⟨hne, hlength⟩
    have htake : cs.take (realPrefix cs) = cs := by rw [hlength, List.take_length]
    rw [← htake]
    apply isReal_take
    rw [hlength]
    exact fun h => hne (List.length_eq_zero_iff.mp h)

/-! ## Reading -/

def realSigns : List Char := ['+', '-', '.', 'e', 'E'] ++ digitSigns.take 10

private theorem realSigns_plain :
    ∀ c ∈ realSigns, c.utf8Size = 1 ∧ c ≠ '_' ∧ c ≠ 'x' ∧ c ≠ 'X' := by
  intro c hc
  fin_cases hc <;> decide

private theorem mem_realSigns_of_isDigit {c : Char} (h : IsDigit 10 c) : c ∈ realSigns := by
  have hc : c ∈ hexSigns := mem_hexSigns_of_toLower (List.mem_of_mem_take h)
  revert h
  fin_cases hc <;> decide

private theorem mem_realSigns_of_isSign {sign : List Char} (h : IsSign sign) :
    sign ⊆ realSigns := by
  simp only [IsSign, List.mem_cons, List.not_mem_nil, or_false] at h
  rcases h with rfl | rfl | rfl <;> simp [realSigns]

theorem IsReal.subset_realSigns {cs : List Char} (h : IsReal cs) : cs ⊆ realSigns := by
  have hdigits {digits : List Char} (hd : AllDigits digits) : digits ⊆ realSigns :=
    fun c hc => mem_realSigns_of_isDigit (hd c hc)
  obtain ⟨hsign, hwhole, hfraction, -, hexponent⟩ := h
  refine List.append_subset.mpr ⟨mem_realSigns_of_isSign hsign, List.append_subset.mpr
    ⟨hdigits hwhole, List.append_subset.mpr ⟨?_, ?_⟩⟩⟩
  · cases hfraction with
    | none => exact List.nil_subset _
    | point hd => exact List.cons_subset.mpr ⟨by decide, hdigits hd⟩
  · cases hexponent with
    | none => exact List.nil_subset _
    | power he hs hd =>
      refine List.cons_subset.mpr ⟨?_, List.append_subset.mpr
        ⟨mem_realSigns_of_isSign hs, hdigits hd⟩⟩
      rcases he with rfl | rfl <;> decide

theorem IsReal.utf8ByteSize_eq {cs : List Char} (h : IsReal cs) :
    (String.ofList cs).utf8ByteSize = cs.length := by
  have hsize : ∀ c ∈ cs, c.utf8Size = 1 := fun c hc =>
    (realSigns_plain c (h.subset_realSigns hc)).1
  rw [String.utf8ByteSize_ofList]
  clear h
  induction cs with
  | nil => rfl
  | cons c cs ih =>
    obtain ⟨hc, hcs⟩ := List.forall_mem_cons.mp hsize
    rw [String.utf8Len, ih hcs, hc, List.length_cons]

private theorem splitSign_subset (cs : List Char) : (splitSign cs).2 ⊆ cs := by
  unfold splitSign
  split <;> simp

private theorem hexBody?_eq_none {cs : List Char} (h : ∀ c ∈ cs, c ≠ 'x' ∧ c ≠ 'X') :
    hexBody? cs = none := by
  unfold hexBody?
  split
  case h_1 x rest =>
    obtain ⟨hsmall, hcapital⟩ := h x (by simp)
    simp [hsmall, hcapital]
  case h_2 => rfl

private theorem separates_of_plain (isDigit : Char → Bool) (digit : Bool) {cs : List Char}
    (h : ∀ c ∈ cs, c ≠ '_') : separates isDigit digit cs = true := by
  induction cs generalizing digit with
  | nil => rfl
  | cons c cs ih =>
    obtain ⟨hc, hcs⟩ := List.forall_mem_cons.mp h
    rw [separates]
    · exact ih (isDigit c) hcs
    · exact hc

private theorem written?_of_isReal {cs : List Char} (h : IsReal cs) :
    written? cs = some (readReal cs) := by
  have hplain : ∀ c ∈ cs, c ≠ '_' ∧ c ≠ 'x' ∧ c ≠ 'X' := fun c hc =>
    (realSigns_plain c (h.subset_realSigns hc)).2
  have hhex : hexBody? (splitSign cs).2 = none :=
    hexBody?_eq_none fun c hc => (hplain c (splitSign_subset cs hc)).2
  have hseparated : separates isDigit false (splitSign cs).2 = true :=
    separates_of_plain isDigit false fun c hc => (hplain c (splitSign_subset cs hc)).1
  have hfilter : cs.filter (· != '_') = cs :=
    List.filter_eq_self.mpr fun c hc => by simpa using (hplain c hc).1
  simp only [written?, hhex, hseparated, hfilter, if_true, decimalReal?]
  exact if_pos ((isReal_iff cs).mp h)

private theorem longestRead_eq {read : List Char → Option Float} {cs : List Char} {n : Nat}
    {x : Float} (hn : n ≠ 0) (h : read (cs.take n) = some x) : longestRead read cs n = x := by
  cases n with
  | zero => exact absurd rfl hn
  | succ n => simp only [longestRead, h]

/-- The scan finds the longest start of a text that is a real number, and nothing when no start is
one.  The length is the same in characters and in bytes.  A reader that accepts all real numbers
accepts this start, so what it makes of shorter ones does not matter; and the one for whole texts
does accept them all. -/
theorem realPrefix_longest (cs : List Char) :
    ((∃ start, start <+: cs ∧ IsReal start) →
      IsGreatest {k | ∃ start, start <+: cs ∧ IsReal start ∧ start.length = k} (realPrefix cs)) ∧
    ((¬∃ start, start <+: cs ∧ IsReal start) → realPrefix cs = 0) ∧
    (realPrefix cs ≠ 0 → IsReal (cs.take (realPrefix cs)) ∧
      (String.ofList (cs.take (realPrefix cs))).utf8ByteSize = realPrefix cs) ∧
    (∀ read : List Char → Option Float, (∀ start, IsReal start → (read start).isSome = true) →
      realPrefix cs ≠ 0 → ∃ x, read (cs.take (realPrefix cs)) = some x ∧
        ∀ read' : List Char → Option Float, read' (cs.take (realPrefix cs)) = some x →
          longestRead read' cs (realPrefix cs) = x) ∧
    (∀ start, IsReal start → written? start = some (readReal start)) ∧
    ∀ text, Text.trimLeft text.toList = cs →
      real text = if realPrefix cs = 0 then 0.0 else readReal (cs.take (realPrefix cs)) := by
  set n := realPrefix cs with hscan
  have hlength : (cs.take n).length = n := List.length_take_of_le (realPrefix_le cs)
  have hbound {start : List Char} (hstart : start <+: cs) (hreal : IsReal start) :
      start.length ≤ n := by
    obtain ⟨rest, rfl⟩ := hstart
    exact hreal.length_le rest
  refine ⟨?_, ?_, ?_, ?_, fun start => written?_of_isReal, ?_⟩
  · rintro ⟨start, hstart, hreal⟩
    have hpos : 0 < start.length := List.length_pos_of_ne_nil hreal.ne_nil
    have hn : n ≠ 0 := Nat.ne_of_gt (Nat.lt_of_lt_of_le hpos (hbound hstart hreal))
    refine ⟨⟨cs.take n, List.take_prefix n cs, isReal_take hn, hlength⟩, ?_⟩
    rintro k ⟨other, hother, hreal', rfl⟩
    exact hbound hother hreal'
  · intro hnone
    by_contra hn
    exact hnone ⟨cs.take n, List.take_prefix n cs, isReal_take hn⟩
  · intro hn
    refine ⟨isReal_take hn, ?_⟩
    rw [(isReal_take hn).utf8ByteSize_eq, hlength]
  · intro read hread hn
    obtain ⟨x, hx⟩ := Option.isSome_iff_exists.mp (hread _ (isReal_take hn))
    exact ⟨x, hx, fun read' => longestRead_eq hn⟩
  · rintro text rfl
    by_cases hn : n = 0
    · rw [if_pos hn]
      rw [real, ← hscan, hn]
      rfl
    · rw [if_neg hn]
      exact longestRead_eq hn (written?_of_isReal (isReal_take hn))

/-- An exponent with a sign but without a digit is given up, and the digits before it are kept. -/
theorem realPrefix_longest_danglingExponent :
    let cs := "-.5e+x".toList
    realPrefix cs = 3 ∧ IsReal ['-', '.', '5'] ∧
      (∀ start, start <+: cs → IsReal start → start.length ≤ 3) ∧
      (String.ofList ['-', '.', '5']).utf8ByteSize = 3 ∧
      (∃ x, written? ['-', '.', '5'] = some x ∧ longestRead written? cs 3 = x) ∧
      real " -.5e+x" = readReal ['-', '.', '5'] := by
  intro cs
  have hn : realPrefix cs = 3 := by decide +kernel
  obtain ⟨hgreatest, -, hreal, hloop, hwritten, hnumber⟩ := realPrefix_longest cs
  rw [hn] at hgreatest hreal hloop hnumber
  have htake : cs.take 3 = ['-', '.', '5'] := by decide +kernel
  rw [htake] at hreal hloop hnumber
  obtain ⟨hform, hbytes⟩ := hreal (by decide)
  obtain ⟨x, hx, hone⟩ := hloop written? (fun start h => by rw [hwritten start h]; rfl) (by decide)
  refine ⟨hn, hform, fun start hstart h => ?_, hbytes, ⟨x, hx, hone written? hx⟩, ?_⟩
  · exact (hgreatest ⟨start, hstart, h⟩).2 ⟨start, hstart, h, rfl⟩
  · rw [hnumber " -.5e+x" (by decide +kernel), if_neg (by decide)]

end HdlExpr.Numeral

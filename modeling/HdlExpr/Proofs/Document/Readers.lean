import Mathlib.Data.Set.Function
import HdlExpr.Document.Cache

/-!
# Readers of a cache

Readers take turns between their steps, and the cache may be cleared at any time.  Each entry is
made for one text and decoded for it once, so every reader gets what decoding gives for its own
text; an entry that failed is dropped by the last reader that is still busy with it, if not before.
-/

/-- An update that keeps what is looked at cannot be seen. -/
theorem HdlExpr.map_set_eq {α β : Type} (f : α → β) {l : List α} {i : Nat} {a a' : α}
    (hi : l[i]? = some a) (h : f a' = f a) : (l.set i a').map f = l.map f := by
  obtain ⟨hlt, rfl⟩ := List.getElem?_eq_some_iff.mp hi
  calc (l.set i a').map f = (l.map f).set i (f l[i]) := by rw [List.map_set, h]
    _ = (l.set i l[i]).map f := List.map_set.symm
    _ = l.map f := by rw [List.set_getElem_self]

namespace HdlExpr.Document.Cache

/-! ## Steps -/

/-- What happens to a cache: a reader starts, takes its next step, or reads past the cache at once;
or the cache is cleared. -/
inductive Action where
  | start (text : String)
  | proceed (reader : Nat)
  | bypass (text : String)
  | clear
  deriving DecidableEq

def Action.text? : Action → Option String
  | .start text | .bypass text => some text
  | .proceed _ | .clear => none

structure Session where
  cache : Cache := {}
  readers : List Reader := []
  /-- The entries that were decoded, in order. -/
  decoded : List Nat := []

namespace Session

variable (codec : Codec)

def step (σ : Session) : Action → Session
  | .start text =>
    let (r, cache) := start codec σ.cache text
    { σ with cache, readers := σ.readers ++ [r] }
  | .proceed i =>
    match σ.readers[i]? with
    | none => σ
    | some r =>
      let (next, fresh, cache) := r.proceed codec σ.cache
      { cache
        readers := σ.readers.set i next
        decoded := if fresh then σ.decoded ++ [r.entry] else σ.decoded }
  | .bypass text =>
    let (read, cache) := σ.cache.readUncached codec text
    let r := { text, entry := read.entry, hit := false, phase := .returned read.result }
    { cache, readers := σ.readers ++ [r], decoded := σ.decoded ++ [read.entry] }
  | .clear => { σ with cache := σ.cache.clear }

def run (actions : List Action) : Session := actions.foldl (step codec) {}

end Session

/-! ## Decoding once -/

variable {codec : Codec} {c : Cache}

@[simp] private theorem decodeOnce_held (id : Nat) (text : String) :
    (c.decodeOnce codec id text).2.2.held = c.held := by
  unfold decodeOnce
  split <;> rfl

@[simp] private theorem size_decodeOnce (id : Nat) (text : String) :
    (c.decodeOnce codec id text).2.2.entries.size = c.entries.size := by
  unfold decodeOnce
  split
  · rfl
  · exact Array.size_setIfInBounds

private theorem getElem?_decodeOnce {id : Nat} (hid : id < c.entries.size) (text : String)
    (j : Nat) : (c.decodeOnce codec id text).2.2.entries[j]? =
      if id = j then some (some (c.decodeOnce codec id text).1) else c.entries[j]? := by
  unfold decodeOnce
  split
  case h_1 x hx =>
    split
    case isTrue he => exact he ▸ hx
    case isFalse => rfl
  case h_2 => simp only [Array.getElem?_setIfInBounds, if_pos hid]

private theorem decodeOnce_keeps {j : Nat} {x : Except Fault Document}
    (hx : c.entries[j]? = some (some x))
    (id : Nat) (text : String) : (c.decodeOnce codec id text).2.2.entries[j]? = some (some x) := by
  unfold decodeOnce
  split
  case h_1 => exact hx
  case h_2 hnone =>
    have hne : id ≠ j := by
      rintro rfl
      exact hnone x hx
    simp only [Array.getElem?_setIfInBounds, if_neg hne, hx]

private theorem decodeOnce_fresh (id : Nat) (text : String) :
    (c.decodeOnce codec id text).2.1 = true ↔ ∀ x, c.entries[id]? ≠ some (some x) := by
  unfold decodeOnce
  split
  case h_1 x hx => simp [hx]
  case h_2 h => simpa using h

private theorem allocate_decoded {j : Nat} {x : Except Fault Document} :
    c.allocate.2.entries[j]? = some (some x) ↔ c.entries[j]? = some (some x) := by
  rw [allocate, Array.getElem?_push]
  split
  case isTrue hj => simp [hj]
  case isFalse => rfl

/-- A log of decoding names the decoded entries, each of them once. -/
structure Logs (log : List Nat) (c : Cache) : Prop where
  nodup : log.Nodup
  mem_iff {id : Nat} : id ∈ log ↔ ∃ x, c.entries[id]? = some (some x)

theorem Logs.congr {log : List Nat} (h : Logs log c) {c' : Cache}
    (hc : ∀ {id : Nat} {x}, c'.entries[id]? = some (some x) ↔ c.entries[id]? = some (some x)) :
    Logs log c' := by
  refine ⟨h.nodup, ?_⟩
  intro id
  rw [h.mem_iff, exists_congr fun x => hc]

theorem Logs.decodeOnce {log : List Nat} (h : Logs log c) {id : Nat} (hid : id < c.entries.size)
    (text : String) :
    Logs (if (c.decodeOnce codec id text).2.1 then log ++ [id] else log)
      (c.decodeOnce codec id text).2.2 := by
  have hlog (j : Nat) : (∃ x, (c.decodeOnce codec id text).2.2.entries[j]? = some (some x)) ↔
      id = j ∨ j ∈ log := by
    rw [getElem?_decodeOnce hid, h.mem_iff]
    split
    case isTrue he => simp [he]
    case isFalse he => simp [he]
  split
  case isTrue hfresh =>
    have hnot : id ∉ log := fun hmem =>
      have ⟨x, hx⟩ := h.mem_iff.mp hmem
      (decodeOnce_fresh id text).mp hfresh x hx
    refine ⟨List.nodup_append.mpr ⟨h.nodup, List.pairwise_singleton _ id, ?_⟩, ?_⟩
    · rintro j hj _ hid rfl
      exact hnot (List.mem_singleton.mp hid ▸ hj)
    intro j
    rw [hlog, List.mem_append, List.mem_singleton, or_comm, eq_comm]
  case isFalse hfresh =>
    have hmem : id ∈ log := by
      by_contra hmem
      refine hfresh ((decodeOnce_fresh id text).mpr fun x hx => hmem (h.mem_iff.mpr ⟨x, hx⟩))
    refine ⟨h.nodup, ?_⟩
    intro j
    rw [hlog]
    exact ⟨.inr, Or.rec (fun he => he ▸ hmem) fun hj => hj⟩

/-! ## Entries and their texts -/

/-- Each entry has an owner, the text that it was made for.  What was decoded for the entry is what
the owner gives, and the cache holds the entry under the key of the owner. -/
structure Tracks (codec : Codec) (contents : Set String) (owners : List String)
    (c : Cache) : Prop where
  size : owners.length = c.entries.size
  decoded {id : Nat} {text : String} {x : Except Fault Document} (ho : owners[id]? = some text)
    (hx : c.entries[id]? = some (some x)) : x = codec.decode text
  held {k : String} {id : Nat} (h : (k, id) ∈ c.held) :
    ∃ text ∈ contents, owners[id]? = some text ∧ codec.key text = k

variable {contents : Set String} {owners owners' : List String}

theorem tracks_empty : Tracks codec contents [] {} where
  size := rfl
  decoded ho := by simp at ho
  held h := absurd h List.not_mem_nil

theorem owner_mono (h : owners <+: owners') {id : Nat} {text : String}
    (ho : owners[id]? = some text) : owners'[id]? = some text := by
  obtain ⟨more, rfl⟩ := h
  have hlt : id < owners.length := (List.getElem?_eq_some_iff.mp ho).1
  rw [List.getElem?_append_left hlt, ho]

namespace Tracks

private theorem lt_size (h : Tracks codec contents owners c) {id : Nat} {text : String}
    (ho : owners[id]? = some text) : id < c.entries.size := by
  rw [← h.size]
  exact (List.getElem?_eq_some_iff.mp ho).1

private theorem drop (h : Tracks codec contents owners c) {held : List (String × Nat)}
    (hs : held ⊆ c.held) : Tracks codec contents owners { c with held } where
  size := h.size
  decoded := h.decoded
  held hm := h.held (hs hm)

private theorem allocate (h : Tracks codec contents owners c) (text : String) :
    Tracks codec contents (owners ++ [text]) c.allocate.2 where
  size := by simp [Cache.allocate, h.size]
  decoded {id owner x} ho hx := by
    have hx := allocate_decoded.mp hx
    have hlt : id < c.entries.size := (Array.getElem?_eq_some_iff.mp hx).1
    rw [List.getElem?_append_left (h.size.symm ▸ hlt)] at ho
    exact h.decoded ho hx
  held hm := by
    obtain ⟨owner, hmem, ho, hk⟩ := h.held hm
    exact ⟨owner, hmem, owner_mono (List.prefix_append _ _) ho, hk⟩

private theorem hold (h : Tracks codec contents owners c) {text : String} (hc : text ∈ contents)
    {id : Nat} (ho : owners[id]? = some text) :
    Tracks codec contents owners { c with held := (codec.key text, id) :: c.held } where
  size := h.size
  decoded := h.decoded
  held hm := by
    obtain heq | hm := List.mem_cons.mp hm
    · obtain ⟨rfl, rfl⟩ := Prod.mk.inj heq
      exact ⟨text, hc, ho, rfl⟩
    · exact h.held hm

private theorem decodeOnce (h : Tracks codec contents owners c) {id : Nat} {text : String}
    (ho : owners[id]? = some text) :
    (c.decodeOnce codec id text).1 = codec.decode text ∧
      Tracks codec contents owners (c.decodeOnce codec id text).2.2 := by
  have hresult : (c.decodeOnce codec id text).1 = codec.decode text := by
    unfold Cache.decodeOnce
    split
    case h_1 x hx => exact h.decoded ho hx
    case h_2 => rfl
  refine ⟨hresult, ?_, ?_, ?_⟩
  · rw [size_decodeOnce, h.size]
  · intro j owner x hj hx
    rw [getElem?_decodeOnce (h.lt_size ho)] at hx
    split at hx
    case isTrue he =>
      obtain rfl : text = owner := Option.some.inj (ho.symm.trans (he ▸ hj))
      rw [← Option.some.inj (Option.some.inj hx), hresult]
    case isFalse => exact h.decoded hj hx
  · intro k j hm
    exact h.held (decodeOnce_held id text ▸ hm)

end Tracks

/-! ## One reader -/

/-- What a reader has: the entry of its text, and what decoding the text gives as far as it has got
there. -/
structure Reader.Sound (codec : Codec) (owners : List String) (r : Reader) : Prop where
  owner : owners[r.entry]? = some r.text
  failing {f : Fault} (h : r.phase = .failing f) : codec.decode r.text = .error f
  returned {x : Except Fault Document} (h : r.phase = .returned x) : x = codec.decode r.text

theorem Reader.Sound.mono {r : Reader} (h : r.Sound codec owners) (hp : owners <+: owners') :
    r.Sound codec owners' :=
  ⟨owner_mono hp h.owner, h.failing, h.returned⟩

private theorem start_cases (codec : Codec) (c : Cache) (text : String) :
    (∃ id, (codec.key text, id) ∈ c.held ∧
      start codec c text = ({ text, entry := id, hit := true }, c)) ∨
    ((∀ id, (codec.key text, id) ∉ c.held) ∧
      start codec c text = ({ text, entry := c.entries.size, hit := false },
        { c.allocate.2 with held := (codec.key text, c.entries.size) :: c.held })) := by
  unfold start acquire
  cases hf : c.find? (codec.key text) with
  | some id =>
    obtain ⟨before, after, hheld, -⟩ := List.lookup_eq_some_iff.mp hf
    exact .inl ⟨id, by simp [hheld], rfl⟩
  | none =>
    refine .inr ⟨fun id hid => ?_, rfl⟩
    simpa using List.lookup_eq_none_iff.mp hf _ hid

/-- Keys that differ on the contents lead a reader to the entry of its own text. -/
theorem Tracks.start (h : Tracks codec contents owners c) (hkey : Set.InjOn codec.key contents)
    {text : String} (ht : text ∈ contents) :
    ∃ owners', owners <+: owners' ∧ Tracks codec contents owners' (start codec c text).2 ∧
      (start codec c text).1.Sound codec owners' := by
  obtain ⟨id, hid, heq⟩ | ⟨-, heq⟩ := start_cases codec c text
  · obtain ⟨owner, hmem, howner, hk⟩ := h.held hid
    obtain rfl : owner = text := hkey hmem ht hk
    exact ⟨owners, List.prefix_rfl, heq ▸ h, heq ▸ ⟨howner, nofun, nofun⟩⟩
  · have howner : (owners ++ [text])[c.entries.size]? = some text := by
      rw [← h.size, List.getElem?_concat_length]
    refine ⟨owners ++ [text], List.prefix_append _ _, ?_, heq ▸ ⟨howner, nofun, nofun⟩⟩
    rw [heq]
    exact (h.allocate text).hold ht howner

namespace Reader

variable {r : Reader}

private theorem proceed_started (hp : r.phase = .started) :
    r.proceed codec c = ({ r with phase := .ofResult (c.decodeOnce codec r.entry r.text).1 },
      (c.decodeOnce codec r.entry r.text).2.1, (c.decodeOnce codec r.entry r.text).2.2) := by
  simp only [proceed, hp]

private theorem proceed_failing {f : Fault} (hp : r.phase = .failing f) :
    r.proceed codec c = ({ r with phase := .returned (.error f) }, false,
      c.evict (codec.key r.text) r.entry) := by
  simp only [proceed, hp]

private theorem proceed_returned {x : Except Fault Document} (hp : r.phase = .returned x) :
    r.proceed codec c = (r, false, c) := by
  simp only [proceed, hp]

/-- A step keeps what the reader is about and brings it closer to its end. -/
theorem proceed_reader (codec : Codec) (r : Reader) (c : Cache) :
    (r.proceed codec c).1.text = r.text ∧ (r.proceed codec c).1.entry = r.entry ∧
      (r.proceed codec c).1.hit = r.hit ∧ (r.proceed codec c).1.phase.left ≤ r.phase.left - 1 := by
  have hkept : (r.proceed codec c).1.text = r.text ∧ (r.proceed codec c).1.entry = r.entry ∧
      (r.proceed codec c).1.hit = r.hit := by
    cases hp : r.phase <;> simp only [proceed, hp, and_self]
  exact ⟨hkept.1, hkept.2.1, hkept.2.2, r.left_proceed codec c⟩

end Reader

private theorem evict_held_subset (c : Cache) (k : String) (id : Nat) :
    (c.evict k id).held ⊆ c.held :=
  fun _ hm => (List.mem_filter.mp hm).1

private theorem mem_held_evict {k k' : String} {id id' : Nat} :
    (k', id') ∈ (c.evict k id).held ↔ (k', id') ∈ c.held ∧ (k', id') ≠ (k, id) := by
  simp [evict, List.mem_filter, imp_iff_not_or]

/-- A step of a reader gives it nothing but what its text decodes to. -/
theorem Tracks.proceed (h : Tracks codec contents owners c) {r : Reader}
    (hr : r.Sound codec owners) :
    Tracks codec contents owners (r.proceed codec c).2.2 ∧
      (r.proceed codec c).1.Sound codec owners := by
  cases hp : r.phase with
  | started =>
    obtain ⟨hresult, htracks⟩ := h.decodeOnce hr.owner
    rw [Reader.proceed_started hp, hresult]
    refine ⟨htracks, hr.owner, ?_, ?_⟩
    · intro f hf
      cases hd : codec.decode r.text with
      | ok d => simp [Phase.ofResult, hd] at hf
      | error f' => simpa [Phase.ofResult, hd] using hf
    · intro x hx
      cases hd : codec.decode r.text with
      | ok d => simpa [Phase.ofResult, hd] using hx.symm
      | error f => simp [Phase.ofResult, hd] at hx
  | failing f =>
    rw [Reader.proceed_failing hp]
    refine ⟨h.drop (evict_held_subset c _ _), hr.owner, nofun, ?_⟩
    rintro x ⟨⟩
    exact (hr.failing hp).symm
  | returned x =>
    rw [Reader.proceed_returned hp]
    exact ⟨h, hr⟩

theorem Logs.proceed {log : List Nat} (h : Logs log c) {r : Reader}
    (hid : r.entry < c.entries.size) :
    Logs (if (r.proceed codec c).2.1 then log ++ [r.entry] else log) (r.proceed codec c).2.2 := by
  cases hp : r.phase with
  | started =>
    rw [Reader.proceed_started hp]
    exact h.decodeOnce hid r.text
  | failing f =>
    rw [Reader.proceed_failing hp]
    exact h.congr Iff.rfl
  | returned x =>
    rw [Reader.proceed_returned hp]
    exact h

namespace Reader

private theorem proceed_keeps (r : Reader) {j : Nat} {x : Except Fault Document}
    (hx : c.entries[j]? = some (some x)) : (r.proceed codec c).2.2.entries[j]? = some (some x) := by
  cases hp : r.phase with
  | started => exact proceed_started hp ▸ decodeOnce_keeps hx r.entry r.text
  | failing f => exact proceed_failing hp ▸ hx
  | returned x => exact proceed_returned hp ▸ hx

/-- The only thing that a step takes out of a cache is the entry of a reader that failed. -/
theorem mem_held_proceed (r : Reader) {k : String} {id : Nat} :
    (k, id) ∈ (r.proceed codec c).2.2.held ↔
      (k, id) ∈ c.held ∧ ∀ f, r.phase = .failing f → (k, id) ≠ (codec.key r.text, r.entry) := by
  cases hp : r.phase with
  | started => simp [proceed_started hp]
  | failing f => simp [proceed_failing hp, mem_held_evict]
  | returned x => simp [proceed_returned hp]

end Reader

/-- An entry that is held after its reader took a step was decoded with success, or else the reader
goes on. -/
theorem Tracks.proceed_own (h : Tracks codec contents owners c) {r : Reader}
    (hr : r.Sound codec owners) {k : String}
    (hm : (k, r.entry) ∈ (r.proceed codec c).2.2.held) (hbusy : 0 < r.phase.left) :
    (∃ d, (r.proceed codec c).2.2.entries[r.entry]? = some (some (.ok d))) ∨
      0 < (r.proceed codec c).1.phase.left := by
  obtain ⟨hm, hne⟩ := r.mem_held_proceed.mp hm
  cases hp : r.phase with
  | started =>
    rw [Reader.proceed_started hp]
    simp only [getElem?_decodeOnce (h.lt_size hr.owner), if_true]
    cases (c.decodeOnce codec r.entry r.text).1 with
    | ok d => exact .inl ⟨d, rfl⟩
    | error f => exact .inr Nat.one_pos
  | failing f =>
    -- The entry is held under no other key than that of its text.
    obtain ⟨owner, -, howner, hk⟩ := h.held hm
    obtain rfl : owner = r.text := Option.some.inj (howner.symm.trans hr.owner)
    exact absurd (congrArg (·, r.entry) hk.symm) (hne f hp)
  | returned x => simp [hp, Phase.left] at hbusy

/-! ## All readers -/

namespace Session

/-- What holds between the steps.  An entry that is held was decoded with success, unless some
reader is still busy with it. -/
structure Valid (codec : Codec) (contents : Set String) (owners : List String)
    (σ : Session) : Prop where
  tracks : Tracks codec contents owners σ.cache
  readers {r : Reader} (h : r ∈ σ.readers) : r.Sound codec owners
  settled {k : String} {id : Nat} (h : (k, id) ∈ σ.cache.held) :
    (∃ d, σ.cache.entries[id]? = some (some (.ok d))) ∨
      ∃ (j : Nat) (r : Reader), σ.readers[j]? = some r ∧ r.entry = id ∧ 0 < r.phase.left
  log : Logs σ.decoded σ.cache

variable {σ : Session}

theorem valid_empty : Valid codec contents [] {} where
  tracks := tracks_empty
  readers h := absurd h List.not_mem_nil
  settled h := absurd h List.not_mem_nil
  log := ⟨List.nodup_nil, by simp⟩

private theorem step_proceed {i : Nat} {r : Reader} (hi : σ.readers[i]? = some r) :
    σ.step codec (.proceed i) =
      { cache := (r.proceed codec σ.cache).2.2
        readers := σ.readers.set i (r.proceed codec σ.cache).1
        decoded :=
          if (r.proceed codec σ.cache).2.1 then σ.decoded ++ [r.entry] else σ.decoded } := by
  simp only [step, hi]

private theorem step_proceed_none {i : Nat} (hi : σ.readers[i]? = none) :
    σ.step codec (.proceed i) = σ := by
  simp only [step, hi]

namespace Valid

private theorem readers_append (h : σ.Valid codec contents owners) (hp : owners <+: owners')
    {r r' : Reader}
    (hr : r.Sound codec owners') (hmem : r' ∈ σ.readers ++ [r]) : r'.Sound codec owners' := by
  obtain hmem | hmem := List.mem_append.mp hmem
  · exact (h.readers hmem).mono hp
  · exact List.mem_singleton.mp hmem ▸ hr

private theorem settled_append (h : σ.Valid codec contents owners) {k : String} {id : Nat}
    (hm : (k, id) ∈ σ.cache.held) (r : Reader) :
    (∃ d, σ.cache.entries[id]? = some (some (.ok d))) ∨
      ∃ (j : Nat) (r' : Reader), (σ.readers ++ [r])[j]? = some r' ∧ r'.entry = id ∧
        0 < r'.phase.left := by
  obtain hok | ⟨j, r', hj, hr'⟩ := h.settled hm
  · exact .inl hok
  · have hlt : j < σ.readers.length := (List.getElem?_eq_some_iff.mp hj).1
    exact .inr ⟨j, r', by rw [List.getElem?_append_left hlt, hj], hr'⟩

private theorem start (h : σ.Valid codec contents owners) (hkey : Set.InjOn codec.key contents)
    {text : String} (ht : text ∈ contents) :
    ∃ owners', (σ.step codec (.start text)).Valid codec contents owners' := by
  obtain ⟨owners', hp, htracks, hsound⟩ := h.tracks.start hkey ht
  refine ⟨owners', htracks, h.readers_append hp hsound, ?_, ?_⟩
  · simp only [step]
    obtain ⟨id, -, heq⟩ | ⟨-, heq⟩ := start_cases codec σ.cache text
    · rw [heq]
      exact fun hm => h.settled_append hm _
    · rw [heq]
      intro k id hm
      obtain hnew | hm := List.mem_cons.mp hm
      · obtain ⟨rfl, rfl⟩ := Prod.mk.inj hnew
        exact .inr ⟨σ.readers.length, _, List.getElem?_concat_length, rfl, Nat.two_pos⟩
      · simpa only [allocate_decoded] using h.settled_append hm _
  · simp only [step]
    obtain ⟨id, -, heq⟩ | ⟨-, heq⟩ := start_cases codec σ.cache text
    · exact heq ▸ h.log
    · rw [heq]
      exact h.log.congr allocate_decoded

private theorem bypass (h : σ.Valid codec contents owners) (text : String) :
    (σ.step codec (.bypass text)).Valid codec contents (owners ++ [text]) := by
  have howner : (owners ++ [text])[σ.cache.entries.size]? = some text := by
    rw [← h.tracks.size, List.getElem?_concat_length]
  obtain ⟨hresult, htracks⟩ := (h.tracks.allocate text).decodeOnce howner
  refine ⟨htracks, ?_, ?_, ?_⟩
  · refine h.readers_append (List.prefix_append _ _) ⟨howner, nofun, ?_⟩
    rintro x ⟨⟩
    exact hresult
  · intro k id hm
    have hheld := @decodeOnce_held codec σ.cache.allocate.2 σ.cache.entries.size text
    have hm : (k, id) ∈ σ.cache.held := hheld ▸ hm
    obtain ⟨d, hd⟩ | hbusy := h.settled_append hm _
    · exact .inl ⟨d, decodeOnce_keeps (allocate_decoded.mpr hd) _ _⟩
    · exact .inr hbusy
  · have hsize : σ.cache.entries.size < σ.cache.allocate.2.entries.size := by simp [allocate]
    have hlog : Logs σ.decoded σ.cache.allocate.2 := h.log.congr allocate_decoded
    have hfresh : (σ.cache.allocate.2.decodeOnce codec σ.cache.entries.size text).2.1 = true := by
      rw [decodeOnce_fresh]
      simp [allocate]
    have hafter : Logs _ (σ.cache.allocate.2.decodeOnce codec σ.cache.entries.size text).2.2 :=
      hlog.decodeOnce hsize text
    rw [hfresh] at hafter
    exact hafter

private theorem clear (h : σ.Valid codec contents owners) :
    (σ.step codec .clear).Valid codec contents owners where
  tracks := h.tracks.drop (List.nil_subset _)
  readers := h.readers
  settled hm := absurd hm List.not_mem_nil
  log := h.log.congr Iff.rfl

private theorem proceed (h : σ.Valid codec contents owners) (i : Nat) :
    (σ.step codec (.proceed i)).Valid codec contents owners := by
  cases hi : σ.readers[i]? with
  | none => rwa [step_proceed_none hi]
  | some r =>
    have hr : r.Sound codec owners := h.readers (List.mem_of_getElem? hi)
    have hlt : i < σ.readers.length := (List.getElem?_eq_some_iff.mp hi).1
    obtain ⟨htracks, hsound⟩ := h.tracks.proceed hr
    rw [step_proceed hi]
    refine ⟨htracks, ?_, ?_, h.log.proceed (h.tracks.lt_size hr.owner)⟩
    · intro r' hr'
      obtain hr' | rfl := List.mem_or_eq_of_mem_set hr'
      · exact h.readers hr'
      · exact hsound
    · intro k id hm
      obtain ⟨d, hd⟩ | ⟨j, r', hj, rfl, hbusy⟩ := h.settled (r.mem_held_proceed.mp hm).1
      · exact .inl ⟨d, r.proceed_keeps hd⟩
      -- Only the reader that takes the step may have stopped to be busy.
      · by_cases hij : i = j
        · subst hij
          obtain rfl : r = r' := Option.some.inj (hi.symm.trans hj)
          refine (h.tracks.proceed_own hr hm hbusy).imp_right fun hleft => ?_
          exact ⟨i, _, List.getElem?_set_self hlt, (r.proceed_reader codec σ.cache).2.1, hleft⟩
        · exact .inr ⟨j, r', by rw [List.getElem?_set_ne hij, hj], rfl, hbusy⟩

private theorem step (h : σ.Valid codec contents owners) (hkey : Set.InjOn codec.key contents)
    {a : Action} (ha : ∀ text, a = .start text → text ∈ contents) :
    ∃ owners', (σ.step codec a).Valid codec contents owners' := by
  cases a with
  | start text => exact h.start hkey (ha text rfl)
  | proceed i => exact ⟨owners, h.proceed i⟩
  | bypass text => exact ⟨owners ++ [text], h.bypass text⟩
  | clear => exact ⟨owners, h.clear⟩

theorem steps (h : σ.Valid codec contents owners) (hkey : Set.InjOn codec.key contents)
    {actions : List Action} (ha : ∀ text, .start text ∈ actions → text ∈ contents) :
    ∃ owners', (actions.foldl (Session.step codec) σ).Valid codec contents owners' := by
  induction actions generalizing σ owners with
  | nil => exact ⟨owners, h⟩
  | cons a actions ih =>
    obtain ⟨owners₁, h₁⟩ := h.step hkey fun text he => ha text (he ▸ List.mem_cons_self)
    exact ih h₁ fun text hmem => ha text (List.mem_cons_of_mem a hmem)

/-- When no reader is busy, all that is held was decoded with success. -/
theorem idle (h : σ.Valid codec contents owners) (hidle : ∀ r ∈ σ.readers, r.phase.left = 0)
    {k : String} {id : Nat} (hm : (k, id) ∈ σ.cache.held) :
    ∃ text ∈ contents, codec.key text = k ∧
      ∃ d, codec.decode text = .ok d ∧ σ.cache.entries[id]? = some (some (.ok d)) := by
  obtain ⟨text, hc, howner, hk⟩ := h.tracks.held hm
  obtain ⟨d, hd⟩ | ⟨j, r, hj, -, hbusy⟩ := h.settled hm
  · exact ⟨text, hc, hk, d, (h.tracks.decoded howner hd).symm, hd⟩
  · exact absurd (hidle r (List.mem_of_getElem? hj)) hbusy.ne'

end Valid

end Session

/-! ## Reading in a row -/

/-- A reader that takes all its steps in a row, and whether it decodes. -/
def readThrough (codec : Codec) (c : Cache) (text : String) : Reader × Bool × Cache :=
  let (r, c) := start codec c text
  let (r, fresh, c) := r.proceed codec c
  let (r, _, c) := r.proceed codec c
  (r, fresh, c)

private theorem proceed_ofResult (r : Reader) (c : Cache) (result : Except Fault Document) :
    Reader.proceed codec { r with phase := .ofResult result } c =
      ({ r with phase := .returned result }, false,
        match result with
        | .ok _ => c
        | .error _ => c.evict (codec.key r.text) r.entry) := by
  cases result <;> rfl

/-- The document or the fault comes with the second step, and the third one only drops a failure. -/
theorem readThrough_eq (codec : Codec) (c : Cache) (text : String) :
    readThrough codec c text =
      let (r, c) := start codec c text
      let (result, fresh, c) := c.decodeOnce codec r.entry text
      ({ r with phase := .returned result }, fresh,
        match result with
        | .ok _ => c
        | .error _ => c.evict (codec.key text) r.entry) := by
  have hphase : (start codec c text).1.phase = .started := rfl
  unfold readThrough
  simp only [Reader.proceed_started hphase, proceed_ofResult]
  rfl

private theorem read_eq (codec : Codec) (c : Cache) (text : String) :
    let (r, fresh, c') := readThrough codec c text
    ∃ result, r.phase = .returned result ∧
      c.read codec text = ({ entry := r.entry, result
                             records := lookupRecord codec text r.hit ::
                               if fresh then Document.records result else [] }, c') := by
  rw [readThrough_eq]
  exact ⟨_, rfl, rfl⟩

private theorem readThrough_returned (h : Tracks codec contents owners c)
    (hkey : Set.InjOn codec.key contents) {text : String} (ht : text ∈ contents) :
    (readThrough codec c text).1.phase = .returned (codec.decode text) := by
  obtain ⟨owners', -, htracks, hsound⟩ := h.start hkey ht
  rw [readThrough_eq]
  exact congrArg Phase.returned (htracks.decodeOnce hsound.owner).1

/-- What is held after reading a text: the text too, if it decodes. -/
theorem held_readThrough (h : Tracks codec contents owners c) (hkey : Set.InjOn codec.key contents)
    {text : String} (ht : text ∈ contents)
    (hok : ∀ {k id}, (k, id) ∈ c.held → ∃ d, c.entries[id]? = some (some (.ok d))) (k : String) :
    (∃ id, (k, id) ∈ (readThrough codec c text).2.2.held) ↔
      codec.key text = k ∧ (codec.decode text).isOk ∨ ∃ id, (k, id) ∈ c.held := by
  obtain ⟨owners', -, htracks, hsound⟩ := h.start hkey ht
  have hresult := (htracks.decodeOnce hsound.owner).1
  rw [readThrough_eq]
  obtain ⟨id, hid, heq⟩ | ⟨hnone, heq⟩ := start_cases codec c text
  · obtain ⟨d, hd⟩ := hok hid
    rw [heq] at htracks hsound ⊢
    have hdecode : codec.decode text = .ok d := (htracks.decoded hsound.owner hd).symm
    have hsame : c.decodeOnce codec id text = (.ok d, false, c) := by simp only [decodeOnce, hd]
    simp only [hsame]
    refine ⟨.inr, ?_⟩
    rintro (⟨rfl, -⟩ | hheld)
    · exact ⟨id, hid⟩
    · exact hheld
  · rw [heq] at hresult ⊢
    simp only at hresult ⊢
    rw [hresult]
    cases codec.decode text with
    | ok d => simp [Except.isOk, Except.toBool, exists_or, eq_comm]
    | error f =>
      simp only [mem_held_evict, decodeOnce_held, Except.isOk, Except.toBool]
      refine ⟨?_, ?_⟩
      · rintro ⟨id, hm, hne⟩
        exact .inr ⟨id, (List.mem_cons.mp hm).resolve_left hne⟩
      · rintro (⟨-, ⟨⟩⟩ | ⟨id, hm⟩)
        refine ⟨id, List.mem_cons_of_mem _ hm, ?_⟩
        rintro heq
        exact hnone id ((Prod.mk.inj heq).1 ▸ hm)

/-! ## One reader at a time -/

/-- What is asked of a cache where each reader ends before the next one starts. -/
inductive Request where
  | read (text : String)
  | bypass (text : String)
  | clear

/-- The actions of a request, where `n` readers came before. -/
def Request.actions (n : Nat) : Request → List Action
  | .read text => [.start text, .proceed n, .proceed n]
  | .bypass text => [.bypass text]
  | .clear => [.clear]

/-- The texts that were read with success since the cache was cleared. -/
def keep (codec : Codec) (texts : List String) : Request → List String
  | .read text => if (codec.decode text).isOk then text :: texts else texts
  | .bypass _ => texts
  | .clear => []

def kept (codec : Codec) (requests : List Request) : List String :=
  requests.foldl (keep codec) []

namespace Session

def serve (codec : Codec) (σ : Session) (q : Request) : Session :=
  (q.actions σ.readers.length).foldl (step codec) σ

variable {σ : Session}

private theorem step_proceed_last (cache : Cache) (readers : List Reader) (r : Reader)
    (decoded : List Nat) :
    step codec { cache, readers := readers ++ [r], decoded } (.proceed readers.length) =
      { cache := (r.proceed codec cache).2.2, readers := readers ++ [(r.proceed codec cache).1]
        decoded := if (r.proceed codec cache).2.1 then decoded ++ [r.entry] else decoded } := by
  rw [step_proceed List.getElem?_concat_length]
  simp only [List.set_append_right readers.length _ (Nat.le_refl _), Nat.sub_self,
    List.set_cons_zero]

private theorem serve_read (text : String) :
    σ.serve codec (.read text) =
      let (r, fresh, cache) := readThrough codec σ.cache text
      { cache, readers := σ.readers ++ [r]
        decoded := if fresh then σ.decoded ++ [r.entry] else σ.decoded } := by
  have hphase : (Cache.start codec σ.cache text).1.phase = .started := rfl
  have hstart : σ.step codec (.start text) =
      { σ with cache := (Cache.start codec σ.cache text).2
               readers := σ.readers ++ [(Cache.start codec σ.cache text).1] } := rfl
  simp only [serve, Request.actions, List.foldl_cons, List.foldl_nil, hstart, readThrough,
    step_proceed_last, Reader.proceed_started hphase, proceed_ofResult, Bool.false_eq_true,
    if_false]

/-- What holds between requests, where `texts` are those that were read with success. -/
structure Quiet (codec : Codec) (contents : Set String) (texts : List String)
    (σ : Session) : Prop where
  valid : ∃ owners, σ.Valid codec contents owners
  idle {r : Reader} (h : r ∈ σ.readers) : r.phase.left = 0
  subset {text : String} (h : text ∈ texts) : text ∈ contents
  held (k : String) : (∃ id, (k, id) ∈ σ.cache.held) ↔ ∃ text ∈ texts, codec.key text = k

namespace Quiet

variable {texts : List String}

private theorem held_ok (h : σ.Quiet codec contents texts) {k : String} {id : Nat}
    (hm : (k, id) ∈ σ.cache.held) : ∃ d, σ.cache.entries[id]? = some (some (.ok d)) := by
  obtain ⟨owners, hvalid⟩ := h.valid
  obtain ⟨_, _, _, d, _, hd⟩ := hvalid.idle (fun r hr => h.idle hr) hm
  exact ⟨d, hd⟩

private theorem read (h : σ.Quiet codec contents texts) (hkey : Set.InjOn codec.key contents)
    {text : String} (ht : text ∈ contents) :
    (σ.serve codec (.read text)).Quiet codec contents (keep codec texts (.read text)) := by
  obtain ⟨owners, hvalid⟩ := h.valid
  refine ⟨hvalid.steps hkey ?_, ?_, ?_, ?_⟩
  · intro text' hmem
    simp only [Request.actions, List.mem_cons, Action.start.injEq, reduceCtorEq, List.not_mem_nil,
      or_false] at hmem
    exact hmem ▸ ht
  · intro r hr
    rw [serve_read] at hr
    obtain hr | hr := List.mem_append.mp hr
    · exact h.idle hr
    · rw [List.mem_singleton.mp hr, readThrough_returned hvalid.tracks hkey ht]
      rfl
  · intro text' hmem
    simp only [keep] at hmem
    split at hmem
    · obtain rfl | hmem := List.mem_cons.mp hmem
      · exact ht
      · exact h.subset hmem
    · exact h.subset hmem
  · intro k
    rw [serve_read]
    simp only [held_readThrough hvalid.tracks hkey ht h.held_ok, h.held, keep]
    split
    case isTrue hok => simp [hok]
    case isFalse hok => simp [hok]

private theorem serve (h : σ.Quiet codec contents texts) (hkey : Set.InjOn codec.key contents)
    {q : Request} (hq : ∀ text, q = .read text → text ∈ contents) :
    (σ.serve codec q).Quiet codec contents (keep codec texts q) := by
  obtain ⟨owners, hvalid⟩ := h.valid
  cases q with
  | read text => exact h.read hkey (hq text rfl)
  | bypass text =>
    have hheld := @decodeOnce_held codec σ.cache.allocate.2 σ.cache.entries.size text
    refine ⟨⟨_, hvalid.bypass text⟩, ?_, h.subset, fun k => (hheld ▸ h.held k :)⟩
    intro r hr
    obtain hr | hr := List.mem_append.mp hr
    · exact h.idle hr
    · exact List.mem_singleton.mp hr ▸ rfl
  | clear =>
    refine ⟨⟨_, hvalid.clear⟩, h.idle, nofun, ?_⟩
    intro k
    simp [Session.serve, Request.actions, step, Cache.clear, keep]

private theorem empty : Quiet codec contents [] {} :=
  ⟨⟨[], valid_empty⟩, nofun, nofun, by simp⟩

end Quiet

def mark : Codec where
  key text := if text = "" then "empty" else "other"

end Session

end HdlExpr.Document.Cache

import HdlExpr.Document.Basic

/-!
# Document caches

A cache gives equal texts the same document, as far as their keys tell texts apart.  A reader first
takes the entry under the key of its text, making one if there is none; then it decodes the entry,
unless that was done before; and if decoding failed it drops the entry, unless the key has another
one by then.  The three steps are functions of their own, since readers may take turns between them.
-/

namespace HdlExpr.Document

/-- How a text is known, and what it says. -/
structure Codec where
  /-- The key of a text.  Texts with one key are taken for one text. -/
  key : String → String
  decode : String → Except Fault Document := Document.decode

/-- What decoding gave for an entry, once it has been tried. -/
abbrev Entry := Option (Except Fault Document)

/-- All entries ever made, and which of them the cache holds under which key. -/
structure Cache where
  entries : Array Entry := #[]
  held : List (String × Nat) := []
  deriving Inhabited

namespace Cache

def empty : Cache := {}

def find? (c : Cache) (key : String) : Option Nat := c.held.lookup key

/-- A new entry that the cache does not hold. -/
def allocate (c : Cache) : Nat × Cache :=
  (c.entries.size, { c with entries := c.entries.push none })

/-- Takes the entry under a key, or makes one; tells whether there was one. -/
def acquire (c : Cache) (key : String) : Nat × Bool × Cache :=
  match c.find? key with
  | some id => (id, true, c)
  | none =>
    let (id, c) := c.allocate
    (id, false, { c with held := (key, id) :: c.held })

/-- What decoding gives for an entry, and whether it is decoded for that: only one that has not been
decoded before is. -/
def decodeOnce (codec : Codec) (c : Cache) (id : Nat) (text : String) :
    Except Fault Document × Bool × Cache :=
  match c.entries[id]? with
  | some (some result) => (result, false, c)
  | _ =>
    let result := codec.decode text
    (result, true, { c with entries := c.entries.setIfInBounds id (some result) })

/-- Stops holding an entry under a key, if it is the one held. -/
def evict (c : Cache) (key : String) (id : Nat) : Cache :=
  { c with held := c.held.filter fun (k, held) => !(k == key && held == id) }

/-- Stops holding all entries. -/
def clear (c : Cache) : Cache := { c with held := [] }

/-! ## Readers -/

/-- How far a reader is.  When decoding has failed, the entry is still to be dropped. -/
inductive Phase where
  | started
  | failing (fault : Fault)
  | returned (result : Except Fault Document)

namespace Phase

def ofResult : Except Fault Document → Phase
  | .ok d => .returned (.ok d)
  | .error f => .failing f

/-- How many steps are left at most. -/
def left : Phase → Nat
  | .started => 2
  | .failing _ => 1
  | .returned _ => 0

theorem left_ne_zero {p : Phase} (hok : ∀ d, p ≠ .returned (.ok d))
    (hfault : ∀ f, p ≠ .returned (.error f)) : p.left ≠ 0 := by
  cases p with
  | started | failing => simp [left]
  | returned x =>
    cases x with
    | ok d => exact absurd rfl (hok d)
    | error f => exact absurd rfl (hfault f)

end Phase

structure Reader where
  text : String
  entry : Nat
  /-- Whether the cache held the entry before. -/
  hit : Bool
  phase : Phase := .started

section Steps

variable (codec : Codec)

/-- The first step of a reader: it takes the entry under the key of its text. -/
def start (c : Cache) (text : String) : Reader × Cache :=
  let (id, hit, c) := c.acquire (codec.key text)
  ({ text, entry := id, hit }, c)

/-- The next step of a reader, and whether it decodes its entry. -/
def Reader.proceed (r : Reader) (c : Cache) : Reader × Bool × Cache :=
  match r.phase with
  | .started =>
    let (result, fresh, c) := c.decodeOnce codec r.entry r.text
    ({ r with phase := .ofResult result }, fresh, c)
  | .failing f =>
    ({ r with phase := .returned (.error f) }, false, c.evict (codec.key r.text) r.entry)
  | .returned _ => (r, false, c)

theorem Reader.left_proceed (r : Reader) (c : Cache) :
    (r.proceed codec c).1.phase.left ≤ r.phase.left - 1 := by
  cases hp : r.phase with
  | started =>
    simp only [proceed, hp]
    cases (c.decodeOnce codec r.entry r.text).1 with
    | ok d => exact Nat.zero_le _
    | error f => exact Nat.le_refl 1
  | failing f => simp only [proceed, hp, Phase.left, Nat.le_refl]
  | returned x => simp only [proceed, hp, Phase.left, Nat.le_refl]

/-! ## Reading -/

/-- What a reader gets: the entry it used, the document or the fault, and what it logged. -/
structure Read where
  entry : Nat
  result : Except Fault Document
  records : List Log.Record

def lookupRecord (text : String) (hit : Bool) : Log.Record :=
  ⟨.trace, "cache lookup", [.text "hash" (codec.key text), .bool "cache_hit" hit]⟩

/-- Reads a text through the cache: the three steps of a reader in a row. -/
def read (c : Cache) (text : String) : Read × Cache :=
  let (id, hit, c) := c.acquire (codec.key text)
  let (result, fresh, c) := c.decodeOnce codec id text
  let c := match result with
    | .ok _ => c
    | .error _ => c.evict (codec.key text) id
  ({ entry := id, result,
     records := lookupRecord codec text hit :: if fresh then Document.records result else [] }, c)

/-- Decodes a text past the cache. -/
def readUncached (c : Cache) (text : String) : Read × Cache :=
  let (id, c) := c.allocate
  let (result, _, c) := c.decodeOnce codec id text
  ({ entry := id, result, records := Document.records result }, c)

/-- What loading a document gives. -/
structure Load where
  result : Except Failure Document
  records : List Log.Record := []

/-- Loads the document at a path through the cache; `fetch` gives the text at a path. -/
def load (c : Cache) (fetch : String → Except Fault String) (path : String) : Load × Cache :=
  match fetch path with
  | .error fault => ({ result := .error { fault, path } }, c)
  | .ok text =>
    let (read, c) := c.read codec text
    ({ result := read.result.mapError fun fault => { fault, path }, records := read.records }, c)

/-- Loads the document that a stream gives, if the stream does not break off. -/
def loadStream (c : Cache) (stream : Except String String) : Load × Cache :=
  match stream with
  | .error cause => ({ result := .error { fault := .unreadable cause true } }, c)
  | .ok text =>
    let (read, c) := c.read codec text
    ({ result := read.result.mapError fun fault => { fault }, records := read.records }, c)

end Steps

end Cache

end HdlExpr.Document

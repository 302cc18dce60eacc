import Mathlib

namespace Backbook

open Std

abbrev Bytes := List UInt8

inductive IdError
  | empty | tooLong | invalidFirstCharacter | invalidCharacter
deriving DecidableEq, Repr

/-- The six identifier families, which the source keeps apart by tag types. -/
inductive IdTag
  | trade | book | counterparty | nettingSet | command | posting
deriving DecidableEq, Repr

def isAsciiAlphanumeric (character : UInt8) : Bool :=
  ('A'.toUInt8 ≤ character && character ≤ 'Z'.toUInt8) ||
    ('a'.toUInt8 ≤ character && character ≤ 'z'.toUInt8) ||
    ('0'.toUInt8 ≤ character && character ≤ '9'.toUInt8)

def isValidIdCharacter (character : UInt8) : Bool :=
  isAsciiAlphanumeric character || character == '.'.toUInt8 || character == '_'.toUInt8 ||
    character == ':'.toUInt8 || character == '-'.toUInt8

def validateId (text : Bytes) : Except IdError Unit :=
  match text with
  | [] => .error .empty
  | first :: rest =>
    if text.length > 64 then .error .tooLong
    else if !isAsciiAlphanumeric first then .error .invalidFirstCharacter
    else if !rest.all isValidIdCharacter then .error .invalidCharacter
    else .ok ()

structure Id (tag : IdTag) where
  value : Bytes
  accepted : validateId value = .ok ()
deriving DecidableEq

abbrev TradeId := Id .trade
abbrev BookId := Id .book
abbrev CounterpartyId := Id .counterparty
abbrev NettingSetId := Id .nettingSet
abbrev CommandId := Id .command
abbrev PostingId := Id .posting

@[ext] theorem Id.ext {tag : IdTag} {a b : Id tag} (h : a.value = b.value) : a = b := by
  cases a
  cases b
  simpa using h

def Id.parse (tag : IdTag) (text : Bytes) : Except IdError (Id tag) :=
  match h : validateId text with
  | .ok () => .ok ⟨text, h⟩
  | .error e => .error e

theorem Id.parse_ok_iff {tag : IdTag} {text : Bytes} {id : Id tag} :
    Id.parse tag text = .ok id ↔ text = id.value := by
  unfold Id.parse
  split
  · simp [Id.ext_iff]
  · rename_i e h
    refine ⟨nofun, ?_⟩
    rintro rfl
    rw [id.accepted] at h
    contradiction

/-- What the checks establish about the text of an identifier. -/
theorem Id.value_shape {tag : IdTag} (id : Id tag) : ∃ first rest,
    id.value = first :: rest ∧ id.value.length ≤ 64 ∧ isAsciiAlphanumeric first = true ∧
      rest.all isValidIdCharacter = true := by
  obtain ⟨text, h⟩ := id
  cases text with
  | nil => simp [validateId] at h
  | cons first rest =>
    simp only [validateId] at h
    split_ifs at h with h1 h2 h3
    exact ⟨first, rest, rfl, by simpa using h1, by simpa using h2, by simpa using h3⟩

theorem Id.value_ne_nil {tag : IdTag} (id : Id tag) : id.value ≠ [] := by
  obtain ⟨first, rest, h, _⟩ := id.value_shape
  simp [h]

theorem Id.length_le {tag : IdTag} (id : Id tag) : id.value.length ≤ 64 := by
  obtain ⟨_, _, _, h, _⟩ := id.value_shape
  exact h

instance {tag : IdTag} : Ord (Id tag) := ⟨compareOn Id.value⟩

instance {tag : IdTag} : TransOrd (Id tag) :=
  inferInstanceAs (TransCmp (compareOn Id.value))

instance {tag : IdTag} : LawfulEqOrd (Id tag) where
  eq_of_compare h := Id.ext (@LawfulEqCmp.eq_of_compare _ compare _ _ _ h)

inductive Currency
  | usd | jpy | kwd
deriving DecidableEq, Repr

instance : Fintype Currency := ⟨{.usd, .jpy, .kwd}, by intro c; cases c <;> decide⟩

def Currency.code : Currency → UInt8
  | .usd => 0
  | .jpy => 1
  | .kwd => 2

theorem Currency.code_inj {a b : Currency} (h : a.code = b.code) : a = b := by
  revert h
  cases a <;> cases b <;> decide

instance : Ord Currency := ⟨compareOn Currency.code⟩

instance : TransOrd Currency := inferInstanceAs (TransCmp (compareOn Currency.code))

instance : LawfulEqOrd Currency where
  eq_of_compare h := Currency.code_inj (@LawfulEqCmp.eq_of_compare _ compare _ _ _ h)

def FitsInt64 (value : ℤ) : Prop := -2 ^ 63 ≤ value ∧ value < 2 ^ 63

structure Money where
  currency : Currency
  minorUnits : ℤ
  inRange : -2 ^ 63 ≤ minorUnits ∧ minorUnits < 2 ^ 63
deriving DecidableEq

@[ext] theorem Money.ext {a b : Money} (hc : a.currency = b.currency)
    (hm : a.minorUnits = b.minorUnits) : a = b := by
  cases a
  cases b
  simp_all

/-- The source rejects unsupported enumerator values here, which the closed
type leaves out. -/
def Money.fromMinorUnits (currency : Currency) (minorUnits : Int64) : Money :=
  ⟨currency, minorUnits.toInt, Int64.le_toInt minorUnits, Int64.toInt_lt minorUnits⟩

end Backbook

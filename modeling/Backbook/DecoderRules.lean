import Backbook.BrowserDecoders
import Backbook.ServerFieldReaders

namespace Backbook

open JsonTree DecimalText
open Outcome (Below)
open Browser (Decoded unsignedPattern decimalPattern identifierPattern datePattern
  fingerprintPattern isHexDigit bigInt patternText decodeUnion record decodeElements decodeArray
  nullable)

/-- The pattern of whole numbers is that of numerals. -/
theorem unsignedPattern_iff {text : Bytes} :
    unsignedPattern text = true ↔ ∃ n, text = numeral n := by
  rw [exists_numeral_iff]
  cases text with
  | nil => simp [unsignedPattern]
  | cons first rest =>
    simp only [unsignedPattern, Bool.or_eq_true, Bool.and_eq_true, beq_iff_eq, bne_iff_ne,
      List.isEmpty_iff, List.all_eq_true, List.cons.injEq]
    constructor
    · rintro (hzero | ⟨⟨hfirst, hne⟩, hrest⟩)
      · exact Or.inl hzero
      · exact Or.inr ⟨first, rest, ⟨rfl, rfl⟩, hne, List.forall_mem_cons.mpr ⟨hfirst, hrest⟩⟩
    · rintro (hzero | ⟨c, tail, ⟨rfl, rfl⟩, hne, hdigits⟩)
      · exact Or.inl hzero
      · rw [List.forall_mem_cons] at hdigits
        exact Or.inr ⟨⟨hdigits.1, hne⟩, hdigits.2⟩

theorem unsignedPattern_numeral (n : ℕ) : unsignedPattern (numeral n) = true :=
  unsignedPattern_iff.mpr ⟨n, rfl⟩

theorem decimalPattern_signedNumeral (z : ℤ) : decimalPattern (signedNumeral z) = true := by
  unfold signedNumeral
  split_ifs with hz
  · simp [decimalPattern, unsignedPattern_numeral]
  · obtain ⟨c, rest, htext⟩ := List.exists_cons_of_ne_nil (numeral_ne_nil z.natAbs)
    have hpattern := unsignedPattern_numeral z.natAbs
    have hc : c ≠ minusSign := by
      have hhead := numeral_head_ne_minusSign z.natAbs
      simpa [htext] using hhead
    rw [htext] at hpattern ⊢
    simp [decimalPattern, hc, hpattern]

/-- No amount is changed on its way through a text. -/
theorem bigInt_signedNumeral (z : ℤ) : bigInt (signedNumeral z) = z := by
  unfold signedNumeral bigInt
  split_ifs with hz hhead hhead
  · rw [List.tail_cons, value_numeral]
    omega
  · exact absurd rfl hhead
  · exact absurd hhead (numeral_head_ne_minusSign _)
  · rw [value_numeral]
    omega

theorem identifierPattern_value {tag : IdTag} (id : Id tag) :
    identifierPattern id.value = true := by
  obtain ⟨first, rest, hv, hlength, hfirst, hrest⟩ := id.value_shape
  rw [hv, List.length_cons] at hlength
  have hle : rest.length ≤ 63 := by omega
  simp [hv, identifierPattern, hfirst, hrest, hle]

theorem datePattern_toString (date : IsoDate) : datePattern date.toString = true := by
  have hdigit : ∀ n, isDigit (digitChar (n % 10)) = true :=
    fun n => isDigit_digitChar (Nat.mod_lt n (by decide))
  simp [datePattern, IsoDate.toString, hdigit]

theorem isHexDigit_hexDigit {digit : ℕ} (h : digit < 16) : isHexDigit (hexDigit digit) = true := by
  interval_cases digit <;> rfl

theorem hexNumeral_digits (n : ℕ) : ∀ c ∈ hexNumeral n, isHexDigit c = true := by
  intro c hc
  unfold hexNumeral at hc
  split_ifs at hc with hn
  · obtain rfl := List.mem_singleton.mp hc
    rfl
  · obtain ⟨d, hd, rfl⟩ := List.mem_map.mp (List.mem_reverse.mp hc)
    exact isHexDigit_hexDigit (Nat.digits_lt_base (by decide) hd)

theorem hexNumeral_length_le (value : UInt64) : (hexNumeral value.toNat).length ≤ 16 := by
  unfold hexNumeral
  split_ifs
  · decide
  · rw [List.length_reverse, List.length_map, Nat.digits_length_le_iff (by decide)]
    exact value.toNat_lt

theorem fingerprintPattern_text (value : UInt64) :
    fingerprintPattern (fingerprintText value) = true := by
  have hlength := hexNumeral_length_le value
  have hsum : 16 - (hexNumeral value.toNat).length + (hexNumeral value.toNat).length = 16 := by
    omega
  have hall : (List.replicate (16 - (hexNumeral value.toNat).length) zeroDigit ++
      hexNumeral value.toNat).all isHexDigit = true := by
    have hzero : isHexDigit zeroDigit = true := rfl
    have hdigits := List.all_eq_true.mpr (hexNumeral_digits value.toNat)
    simp [hdigits, hzero]
  have hzero : '0'.toUInt8 = zeroDigit := rfl
  simp [fingerprintText, asciiBytes, fingerprintPattern, hall, hsum, hzero]

theorem patternText_string {pattern : Bytes → Bool} {text : Bytes} (h : pattern text = true)
    (complaint path : Bytes) : patternText pattern complaint (.string text) path = .ok text := by
  simp [patternText, Browser.stringValue, h]

theorem decodeUnion_string {κ : Type} {choices : List (Bytes × κ)} {text : Bytes} {choice : κ}
    (h : choices.lookup text = some choice) (complaint path : Bytes) :
    decodeUnion choices complaint (.string text) path = .ok choice := by
  simp [decodeUnion, Browser.stringValue, h]

/-- An object of the server is a record, and it has the members of its table. -/
theorem record_fields {value : Json} {table : List (Bytes × Option Json)}
    (hv : value = ofTable table) (hn : (table.map Prod.fst).Nodup) :
    (∀ path, record value path = .ok value) ∧ ∀ m ∈ table, value.find m.1 = m.2 := by
  subst hv
  exact ⟨fun _ => rfl, fun _ => find_ofTable hn⟩

theorem nullable_json {α β : Type} {decode : Json → Bytes → Decoded β} {json : α → Json}
    {view : α → β} {path : Bytes} (hj : ∀ a, json a ≠ .null)
    (hd : ∀ a, decode (json a) path = .ok (view a)) (value : Option α) :
    nullable decode (nullableJson json value) path = .ok (value.map view) := by
  cases value with
  | none => rfl
  | some a =>
    -- A link that is there is not null, so its decoder is asked.
    have hne := hj a
    have hok := hd a
    unfold nullable nullableJson
    simp only [Option.elim_some, hok]
    rfl

section Arrays

variable {α β : Type} {decode : Json → Bytes → Decoded β}

theorem decodeElements_ok {elements : List Json} {results : List β}
    (h : List.Forall₂ (fun v b => ∀ path, decode v path = .ok b) elements results) (path : Bytes)
    (index : ℕ) : decodeElements decode path index elements = .ok results := by
  induction h generalizing index with
  | nil => rfl
  | cons hv _ ih => rw [decodeElements, hv, Outcome.ok_bind, ih, Outcome.ok_bind]

theorem decodeArray_map {json : α → Json} {view : α → β} {xs : List α}
    (h : ∀ a ∈ xs, ∀ path, decode (json a) path = .ok (view a)) (path : Bytes) :
    decodeArray decode (.array (xs.map json)) path = .ok (xs.map view) := by
  apply decodeElements_ok
  rw [List.forall₂_map_left_iff, List.forall₂_map_right_iff, List.forall₂_same]
  exact h

theorem decodeArray_mapIdx {json : ℕ → α → Json} {view : ℕ → α → β} {xs : List α}
    (h : ∀ index, ∀ a ∈ xs, ∀ path, decode (json index a) path = .ok (view index a))
    (path : Bytes) :
    decodeArray decode (.array (xs.mapIdx json)) path = .ok (xs.mapIdx view) := by
  apply decodeElements_ok
  rw [List.forall₂_iff_get]
  refine ⟨by simp, fun i hi _ => ?_⟩
  rw [List.length_mapIdx] at hi
  simpa using h i xs[i] (List.getElem_mem hi)

end Arrays

section Dates

variable (isRealDay : Bytes → Bool)

/-- A browser that refuses a day reads nothing else in its place. -/
theorem decodeIsoDate_below (value : Json) (path : Bytes) :
    Below (Browser.decodeIsoDate isRealDay value path)
      (Browser.decodeIsoDate (fun _ => true) value path) := by
  refine (Below.refl _).bind fun text date h => ?_
  split_ifs at h
  · exact h
  · cases h

theorem decodeElements_below {β : Type} {decode other : Json → Bytes → Decoded β}
    (h : ∀ value path, Below (decode value path) (other value path)) (path : Bytes) (index : ℕ)
    (elements : List Json) : Below (decodeElements decode path index elements)
      (decodeElements other path index elements) := by
  induction elements generalizing index with
  | nil => exact .refl _
  | cons element rest ih => exact (h _ _).bind fun _ => (ih _).bind fun _ => .refl _

theorem decodeArray_below {β : Type} {decode other : Json → Bytes → Decoded β}
    (h : ∀ value path, Below (decode value path) (other value path)) (value : Json)
    (path : Bytes) : Below (decodeArray decode value path) (decodeArray other value path) :=
  (Below.refl _).bind fun elements => decodeElements_below h path 0 elements

theorem field_below {β : Type} {decode other : Json → Bytes → Decoded β}
    (h : ∀ value path, Below (decode value path) (other value path)) (source : Json)
    (name path : Bytes) : Below (Browser.field decode source name path)
      (Browser.field other source name path) :=
  (Below.refl _).bind fun value => h value _

theorem decodeTerms_below (terms : Json) (path : Bytes) :
    Below (Browser.decodeTerms isRealDay terms path)
      (Browser.decodeTerms (fun _ => true) terms path) := by
  have hdate := field_below (decodeIsoDate_below isRealDay) terms
  refine (Below.refl _).bind fun kind => (hdate _ _).bind fun tradeDate =>
    (hdate _ _).bind fun valueDate => .refl _

theorem decodeTrade_below (value : Json) (path : Bytes) :
    Below (Browser.decodeTrade isRealDay value path)
      (Browser.decodeTrade (fun _ => true) value path) := by
  -- Everything before the terms is read alike.
  refine (Below.refl _).bind fun source => (Below.refl _).bind fun terms =>
    (Below.refl _).bind fun tradeId => (Below.refl _).bind fun version =>
    (Below.refl _).bind fun state => (Below.refl _).bind fun bookId =>
    (Below.refl _).bind fun counterpartyId => (Below.refl _).bind fun nettingSetId => ?_
  exact (decodeTerms_below isRealDay terms _).bind fun _ => .refl _

theorem decodeObligation_below (value : Json) (path : Bytes) :
    Below (Browser.decodeObligation isRealDay value path)
      (Browser.decodeObligation (fun _ => true) value path) := by
  refine (Below.refl _).bind fun source => (Below.refl _).bind fun counterpartyId =>
    (Below.refl _).bind fun nettingSetId => ?_
  exact (field_below (decodeIsoDate_below isRealDay) source _ _).bind fun _ => .refl _

theorem decodeStateData_below (value : Json) (path : Bytes) :
    Below (Browser.decodeStateData isRealDay value path)
      (Browser.decodeStateData (fun _ => true) value path) := by
  refine (Below.refl _).bind fun source => ?_
  exact (field_below (decodeArray_below (decodeTrade_below isRealDay)) source _ _).bind
    fun _ => .refl _

theorem decodeSettlementData_below (value : Json) (path : Bytes) :
    Below (Browser.decodeSettlementData isRealDay value path)
      (Browser.decodeSettlementData (fun _ => true) value path) := by
  refine (Below.refl _).bind fun source => ?_
  exact (field_below (decodeArray_below (decodeObligation_below isRealDay)) source _ _).bind
    fun _ => .refl _

theorem decodeEnvelope_below {δ : Type} {decode other : Json → Bytes → Decoded δ}
    (h : ∀ value path, Below (decode value path) (other value path)) (value : Json) :
    Below (Browser.decodeEnvelope value decode) (Browser.decodeEnvelope value other) := by
  refine (Below.refl _).bind fun source => (Below.refl _).bind fun stateVersion =>
    (Below.refl _).bind fun stateFingerprint => ?_
  exact (field_below h source _ _).bind fun _ => .refl _

end Dates

end Backbook

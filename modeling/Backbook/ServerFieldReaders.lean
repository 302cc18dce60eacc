import Backbook.ServerJsonCodec

namespace Backbook

open JsonTree DecimalText Validation

theorem rejectUnknownFields_guards (value : Json) (path : Bytes) (allowed : List Bytes) :
    Guards (rejectUnknownFields value path allowed)
      (value.isObject = true ∧ ∀ m ∈ value.members, m.1 ∈ allowed) := by
  cases value with
  | object members =>
    have hmember : ∀ m : Bytes × Json, Guards (if isAllowed m.1 allowed then pure ()
        else addViolation (childPath path m.1) "is not a supported field") (m.1 ∈ allowed) := by
      intro m
      refine (Guards.ite Guards.pass (Guards.fail _)).congr ?_
      simp [isAllowed]
    refine (Guards.forM hmember members).congr ?_
    simp [Value.isObject, Value.members]
  | _ => exact (Guards.fail _).congr (by simp [Value.isObject])

theorem rejectExpectedVersion_guards (document : Json) :
    Guards (rejectExpectedVersion document) (document.find "expectedVersion" = none) := by
  refine (Guards.ite (Guards.fail _) Guards.pass).congr ?_
  cases document.find "expectedVersion" <;> simp

theorem rejectField_reads {α : Type} {P : α → Prop} (field message : Bytes) (h : ∀ a, ¬P a) :
    Reads (rejectField field message) P :=
  Reads.fail _ h

section Members

variable {object : Json} (ho : object.isObject = true)
include ho

theorem requiredMember_reads (name path : Bytes) :
    Reads (requiredMember object name path) (object.find name = some ·) := by
  unfold requiredMember
  rw [if_neg (by simp [ho])]
  cases object.find name with
  | none => exact rejectField_reads _ _ (by simp)
  | some member => exact Reads.pure_of rfl (by simp)

theorem requiredString_reads (name path : Bytes) (maximumLength : ℕ) :
    Reads (requiredString object name path maximumLength)
      fun text => object.find name = some (.string text) ∧ text.length ≤ maximumLength := by
  refine (Reads.bind (requiredMember_reads ho name path) (Q := fun member text =>
    member = .string text ∧ text.length ≤ maximumLength) ?_).congr ?_
  · intro member _
    cases member with
    | string text =>
      dsimp only
      split_ifs with hlong
      · exact rejectField_reads _ _ (by simp; omega)
      · exact Reads.pure_of ⟨rfl, by omega⟩ (by simp)
    | _ => exact rejectField_reads _ _ (by simp)
  · intro text
    constructor
    · rintro ⟨_, hfind, rfl, hlen⟩
      exact ⟨hfind, hlen⟩
    · rintro ⟨hfind, hlen⟩
      exact ⟨_, hfind, rfl, hlen⟩

/-- A text of bounded length, read further. -/
theorem requiredText_reads {α : Type} {P : Bytes → α → Prop} (name path : Bytes)
    {maximumLength : ℕ} {reader : Bytes → Checked (Option α)}
    (hlen : ∀ text a, P text a → text.length ≤ maximumLength)
    (hreader : ∀ text, Reads (reader text) (P text)) :
    Reads (do
      match ← requiredString object name path maximumLength with
      | none => pure none
      | some text => reader text)
      fun a => ∃ text, object.find name = some (.string text) ∧ P text a := by
  refine (Reads.bind (requiredString_reads ho name path maximumLength)
    fun text _ => hreader text).congr fun a => ?_
  constructor
  · rintro ⟨text, ⟨hfind, -⟩, ha⟩
    exact ⟨text, hfind, ha⟩
  · rintro ⟨text, hfind, ha⟩
    exact ⟨text, ⟨hfind, hlen text a ha⟩, ha⟩

theorem parseId_reads (tag : IdTag) (name path : Bytes) :
    Reads (parseId tag object name path) fun id => object.find name = some (.string id.value) := by
  refine (requiredText_reads ho name path (P := fun text id => text = id.value) ?_ ?_).congr ?_
  · rintro _ id rfl
    exact id.length_le
  · intro text
    cases hparse : Id.parse tag text with
    | ok id =>
      have htext := Id.parse_ok_iff.mp hparse
      refine Reads.pure_of htext fun id' htext' => ?_
      exact Id.ext (htext.symm.trans htext')
    | error e =>
      refine rejectField_reads _ _ fun id htext => ?_
      rw [Id.parse_ok_iff.mpr htext] at hparse
      contradiction
  · simp

theorem parseDate_reads (name path : Bytes) :
    Reads (parseDate object name path)
      fun date => object.find name = some (.string date.toString) := by
  refine (requiredText_reads ho name path (P := fun text date => text = date.toString)
    ?_ ?_).congr ?_
  · rintro _ date rfl
    exact date.toString_length.le
  · intro text
    cases hparse : IsoDate.parse text with
    | ok date =>
      have htext := IsoDate.parse_ok_iff.mp hparse
      refine Reads.pure_of htext fun date' htext' => ?_
      rw [IsoDate.parse_ok_iff.mpr htext'] at hparse
      exact (Except.ok.inj hparse).symm
    | error e =>
      refine rejectField_reads _ _ fun date htext => ?_
      rw [IsoDate.parse_ok_iff.mpr htext] at hparse
      contradiction
  · simp

theorem parseInstrumentKind_reads (path : Bytes) :
    Reads (parseInstrumentKind object path)
      fun kind => object.find "kind" = some (.string (instrumentText kind)) := by
  refine (requiredText_reads ho "kind" path (P := fun text kind => text = instrumentText kind)
    ?_ ?_).congr ?_
  · rintro _ kind rfl
    cases kind <;> decide
  · intro text
    split_ifs with hspot hforward
    · refine Reads.pure_of hspot fun kind hkind => ?_
      rw [hspot] at hkind
      cases kind
      · rfl
      · exact absurd hkind (by decide)
    · refine Reads.pure_of hforward fun kind hkind => ?_
      rw [hforward] at hkind
      cases kind
      · exact absurd hkind (by decide)
      · rfl
    · apply rejectField_reads
      rintro (_ | _) hkind
      · exact hspot hkind
      · exact hforward hkind
  · simp

end Members

theorem currencyText_injective : Function.Injective currencyText := by
  intro a b h
  cases a <;> cases b <;> first | rfl | exact absurd h (by decide)

theorem parseCurrency_reads (text path : Bytes) :
    Reads (parseCurrency text path) fun currency => text = currencyText currency := by
  have hinj : ∀ {a b : Currency}, currencyText a = currencyText b → a = b :=
    fun h => currencyText_injective h
  unfold parseCurrency
  split_ifs with husd hjpy hkwd
  · exact Reads.pure_of husd fun b hb => hinj (a := .usd) (husd.symm.trans hb)
  · exact Reads.pure_of hjpy fun b hb => hinj (a := .jpy) (hjpy.symm.trans hb)
  · exact Reads.pure_of hkwd fun b hb => hinj (a := .kwd) (hkwd.symm.trans hb)
  · apply rejectField_reads
    rintro (_ | _ | _) h
    · exact husd h
    · exact hjpy h
    · exact hkwd h

/-- The range that the source checks of the first character. -/
theorem first_digit_iff {c : UInt8} : (c < '1'.toUInt8 || c > '9'.toUInt8) = false ↔
    isDigit c = true ∧ c ≠ zeroDigit := by
  have hzero : c = zeroDigit ↔ c.toNat = 48 := UInt8.toNat_inj.symm
  have hone : '1'.toUInt8.toNat = 49 := rfl
  have hnine : '9'.toUInt8.toNat = 57 := rfl
  rw [isDigit_iff, ne_eq, hzero, Bool.or_eq_false_iff, decide_eq_false_iff_not,
    decide_eq_false_iff_not, UInt8.lt_iff_toNat_lt, gt_iff_lt, UInt8.lt_iff_toNat_lt, hone, hnine]
  omega

theorem isCanonicalUnsigned_iff {text : Bytes} :
    isCanonicalUnsigned text = true ↔ ∃ n, text = numeral n := by
  have hzero : (asciiBytes "0" : Bytes) = [zeroDigit] := by decide
  rw [exists_numeral_iff]
  cases text with
  | nil => simp [isCanonicalUnsigned]
  | cons first rest =>
    unfold isCanonicalUnsigned
    rw [hzero]
    by_cases h0 : first :: rest = [zeroDigit]
    · simp [h0]
    · dsimp only
      rw [if_neg h0, or_iff_right h0]
      cases hrange : (first < '1'.toUInt8 || first > '9'.toUInt8) with
      | true =>
        -- The first character is no digit, or a zero before other digits.
        refine iff_of_false (by simp) ?_
        rintro ⟨c, tail, heq, hc, hd⟩
        obtain ⟨rfl, rfl⟩ := List.cons.inj heq
        have hfirst := first_digit_iff.mpr ⟨hd first List.mem_cons_self, hc⟩
        rw [hrange] at hfirst
        contradiction
      | false =>
        have hfirst := first_digit_iff.mp hrange
        rw [if_neg Bool.false_ne_true, List.all_eq_true]
        constructor
        · exact fun hd => ⟨first, rest, rfl, hfirst.2, hd⟩
        · rintro ⟨c, tail, heq, -, hd⟩
          exact hd

theorem isCanonicalSigned_iff {text : Bytes} :
    isCanonicalSigned text = true ↔ ∃ z, text = signedNumeral z := by
  rw [exists_signedNumeral_iff]
  cases text with
  | nil =>
    refine iff_of_false Bool.false_ne_true ?_
    rintro (⟨n, hn⟩ | ⟨n, -, hn⟩)
    · exact numeral_ne_nil n hn.symm
    · exact List.cons_ne_nil _ _ hn.symm
  | cons first rest =>
    unfold isCanonicalSigned
    dsimp only
    -- The sign decides which of the two forms is left.
    by_cases hsign : first = minusSign
    · have hnumeral : ¬∃ n, first :: rest = numeral n := by
        rintro ⟨n, hn⟩
        refine numeral_head_ne_minusSign n ?_
        rw [← hn, hsign]
        rfl
      rw [if_neg (not_not.mpr hsign), or_iff_right hnumeral, hsign]
      simp only [List.cons.injEq, true_and]
      cases rest with
      | nil =>
        refine iff_of_false Bool.false_ne_true ?_
        rintro ⟨n, -, hn⟩
        exact numeral_ne_nil n hn.symm
      | cons second more =>
        dsimp only
        split_ifs with hzero
        · -- No numeral of a positive number starts with a zero.
          refine iff_of_false id ?_
          rintro ⟨n, hn, heq⟩
          refine numeral_head hn ?_ hzero
          rw [← heq]
          rfl
        · rw [isCanonicalUnsigned_iff]
          constructor
          · rintro ⟨n, heq⟩
            refine ⟨n, ?_, heq⟩
            rintro rfl
            exact hzero (List.cons.inj heq).1
          · rintro ⟨n, -, heq⟩
            exact ⟨n, heq⟩
    · have hminus : ¬∃ n, n ≠ 0 ∧ first :: rest = minusSign :: numeral n := by
        rintro ⟨n, -, heq⟩
        exact hsign (List.cons.inj heq).1
      rw [if_pos hsign, or_iff_left hminus, isCanonicalUnsigned_iff]

theorem parseExpectedVersion_reads {object : Json} (ho : object.isObject = true) :
    Reads (parseExpectedVersion object) fun version => version ≠ 0 ∧
      object.find "expectedVersion" = some (.string (numeral version.toNat)) := by
  refine (requiredText_reads ho "expectedVersion" "$" (P := fun text version => version ≠ 0 ∧
    text = numeral version.toNat) ?_ ?_).congr ?_
  · rintro _ version ⟨-, rfl⟩
    apply (numeral_length_le (by decide)).mpr
    have hlt := version.toNat_lt
    change version.toNat < 10 ^ 10
    omega
  · intro text
    split_ifs with hcanonical
    · refine rejectField_reads _ _ ?_
      rintro version ⟨-, rfl⟩
      simp [isCanonicalUnsigned_iff.mpr ⟨_, rfl⟩] at hcanonical
    · -- The text is a numeral; what is left is its range.
      obtain ⟨n, rfl⟩ := isCanonicalUnsigned_iff.mp (by simpa using hcanonical)
      rw [fromChars_numeral]
      have hvalue : ∀ version : UInt32, numeral n = numeral version.toNat → n = version.toNat :=
        fun _ h => numeral_injective h
      split_ifs with hrange
      · refine rejectField_reads _ _ ?_
        rintro version ⟨-, htext⟩
        have hlt := version.toNat_lt
        have heq := hvalue version htext
        omega
      · dsimp only
        split_ifs with hzero
        · refine rejectField_reads _ _ ?_
          rintro version ⟨hne, htext⟩
          apply hne
          apply UInt32.toNat_inj.mp
          rw [← hvalue version htext, hzero]
          rfl
        · have hnat : (UInt32.ofNat n).toNat = n := UInt32.toNat_ofNat_of_lt' (by
            change n < 4294967296
            omega)
          refine Reads.pure_of ⟨?_, by rw [hnat]⟩ ?_
          · rintro h0
            rw [h0] at hnat
            exact hzero hnat.symm
          · rintro version ⟨-, htext⟩
            apply UInt32.toNat_inj.mp
            rw [hnat, hvalue version htext]
  · intro version
    constructor
    · rintro ⟨_, hfind, hne, rfl⟩
      exact ⟨hne, hfind⟩
    · rintro ⟨hne, hfind⟩
      exact ⟨_, hfind, hne, rfl⟩

/-- A reader of an object with a closed set of names. The table says what the
object must have under each of them. -/
theorem fields_reads {α β : Type} {value : Json} (hs : value.Sorted) (path : Bytes)
    {names : List Bytes} (hn : names.Nodup) {table : β → List (Bytes × Option Json)}
    (ht : ∀ b, (table b).map Prod.fst = names) {R : α → β → Prop} {reader : Checked (Option α)}
    (hreader : value.isObject = true →
      Reads reader fun a => ∃ b, R a b ∧ ∀ m ∈ table b, value.find m.1 = m.2) :
    Reads (do
      rejectUnknownFields value path names
      if !value.isObject then pure none else reader)
      fun a => ∃ b, R a b ∧ value = ofTable (table b) := by
  refine (Reads.guard (rejectUnknownFields_guards value path names)
    (P := fun a => ∃ b, R a b ∧ ∀ m ∈ table b, value.find m.1 = m.2) fun hv => ?_).congr fun a => ?_
  · rw [if_neg (by simp [hv.1])]
    exact hreader hv.1
  · have htable : ∀ b, value = ofTable (table b) ↔
        (value.isObject = true ∧ ∀ m ∈ value.members, m.1 ∈ names) ∧
          ∀ m ∈ table b, value.find m.1 = m.2 := by
      intro b
      rw [eq_ofTable_iff (ht b ▸ hn) hs, ht b]
    constructor
    · rintro ⟨hv, b, hR, hfind⟩
      exact ⟨b, hR, (htable b).mpr ⟨hv, hfind⟩⟩
    · rintro ⟨b, hR, heq⟩
      obtain ⟨hv, hfind⟩ := (htable b).mp heq
      exact ⟨hv, b, hR, hfind⟩

theorem object_reads {α : Type} {value : Json} (hs : value.Sorted) (path : Bytes)
    {names : List Bytes} (hn : names.Nodup) {table : α → List (Bytes × Option Json)}
    (ht : ∀ a, (table a).map Prod.fst = names) {reader : Checked (Option α)}
    (hreader : value.isObject = true → Reads reader fun a => ∀ m ∈ table a, value.find m.1 = m.2) :
    Reads (do
      rejectUnknownFields value path names
      if !value.isObject then pure none else reader) fun a => value = ofTable (table a) :=
  (fields_reads hs path hn ht (R := fun a b => a = b) fun ho =>
    (hreader ho).congr fun a => by simp).congr fun a => by simp

theorem parseUnits_reads (currency : Currency) (text path : Bytes) :
    Reads (if !isCanonicalSigned text then
        rejectField (childPath path "minorUnits") "must be a canonical signed decimal string"
      else match fromCharsSigned (-2 ^ 63) (2 ^ 63 - 1) text with
        | .ok (minorUnits, []) =>
          pure ((some currency).map fun c => Money.fromMinorUnits c (Int64.ofInt minorUnits))
        | _ => rejectField (childPath path "minorUnits") "is outside the signed 64-bit range")
      fun money => currencyText currency = currencyText money.currency ∧
        text = signedNumeral money.minorUnits := by
  split_ifs with hcanonical
  · refine rejectField_reads _ _ ?_
    rintro money ⟨-, rfl⟩
    simp [isCanonicalSigned_iff.mpr ⟨_, rfl⟩] at hcanonical
  · obtain ⟨z, rfl⟩ := isCanonicalSigned_iff.mp (by simpa using hcanonical)
    rw [fromCharsSigned_signedNumeral]
    split_ifs with hrange
    · refine rejectField_reads _ _ ?_
      rintro money ⟨-, htext⟩
      have hz := signedNumeral_injective htext
      have hin := money.inRange
      omega
    · have hz : (Int64.ofInt z).toInt = z := Int64.toInt_ofInt_of_le (by omega) (by omega)
      refine Reads.pure_of ⟨rfl, ?_⟩ ?_
      · exact congrArg signedNumeral hz.symm
      · rintro money ⟨hcurrency, htext⟩
        refine Money.ext (currencyText_injective hcurrency) ?_
        exact hz.trans (signedNumeral_injective htext)

theorem currencyText_length (currency : Currency) : (currencyText currency).length ≤ 3 := by
  cases currency <;> decide

theorem unitsText_length (money : Money) :
    (signedNumeral money.minorUnits).length ≤ maximumMinorUnitsLength := by
  have hin := money.inRange
  exact signedNumeral_length_le (k := 19) (by decide) (by omega)

theorem createTerms_reads (kind : InstrumentKind) (tradeDate valueDate : IsoDate)
    (pay receive : Money) (path : Bytes) :
    Reads (match FxTerms.create kind tradeDate valueDate pay receive with
      | .ok terms => pure (some terms)
      | .error _ => rejectField path "contains invalid FX cashflow terms")
      fun terms => kind = terms.kind ∧ tradeDate = terms.tradeDate ∧
        valueDate = terms.valueDate ∧ pay = terms.pay ∧ receive = terms.receive := by
  cases hcreate : FxTerms.create kind tradeDate valueDate pay receive with
  | ok terms =>
    refine Reads.pure_of (FxTerms.create_ok_iff.mp hcreate) fun terms' hterms => ?_
    rw [FxTerms.create_ok_iff.mpr hterms] at hcreate
    exact (Except.ok.inj hcreate).symm
  | error e =>
    refine rejectField_reads _ _ fun terms hterms => ?_
    rw [FxTerms.create_ok_iff.mpr hterms] at hcreate
    contradiction

theorem parseMoney_reads {value : Json} (hs : value.Sorted) (path : Bytes) :
    Reads (parseMoney value path) fun money => value = moneyJson money := by
  apply object_reads hs path
  · decide
  · exact fun _ => rfl
  · intro ho
    refine (Reads.bind (requiredString_reads ho "currency" path 3) fun currencyText _ =>
      Reads.bind (requiredString_reads ho "minorUnits" path maximumMinorUnitsLength)
        fun unitsText _ => Reads.bind (parseCurrency_reads currencyText _) fun currency _ =>
          parseUnits_reads currency unitsText path).congr ?_
    intro money
    simp only [List.forall_mem_cons]
    constructor
    · rintro ⟨_, ⟨hcurrency, -⟩, _, ⟨hunits, -⟩, currency, rfl, heq, rfl⟩
      rw [heq] at hcurrency
      exact ⟨hcurrency, hunits, nofun⟩
    · rintro ⟨hcurrency, hunits, -⟩
      exact ⟨_, ⟨hcurrency, currencyText_length _⟩, _, ⟨hunits, unitsText_length money⟩,
        money.currency, rfl, rfl, rfl⟩

theorem parseTerms_reads {value : Json} (hs : value.Sorted) (path : Bytes) :
    Reads (parseTerms value path) fun terms => value = termsJson terms := by
  apply object_reads hs path
  · decide
  · exact fun _ => rfl
  · intro ho
    refine (Reads.bind (parseInstrumentKind_reads ho path) fun kind _ =>
      Reads.bind (parseDate_reads ho "tradeDate" path) fun tradeDate _ =>
      Reads.bind (parseDate_reads ho "valueDate" path) fun valueDate _ =>
      Reads.bind (requiredMember_reads ho "pay" path) fun payJson hpay =>
      Reads.bind (requiredMember_reads ho "receive" path) fun receiveJson hreceive =>
      Reads.bind (parseMoney_reads (hs.find hpay) _) fun pay _ =>
      Reads.bind (parseMoney_reads (hs.find hreceive) _) fun receive _ =>
      createTerms_reads kind tradeDate valueDate pay receive path).congr fun terms => ?_
    simp only [List.forall_mem_cons]
    constructor
    · rintro ⟨_, hkind, _, htrade, _, hvalue, _, hpay, _, hreceive, _, rfl, _, rfl,
        rfl, rfl, rfl, rfl, rfl⟩
      exact ⟨hkind, htrade, hvalue, hpay, hreceive, nofun⟩
    · rintro ⟨hkind, htrade, hvalue, hpay, hreceive, -⟩
      exact ⟨_, hkind, _, htrade, _, hvalue, _, hpay, _, hreceive, _, rfl, _, rfl,
        rfl, rfl, rfl, rfl, rfl⟩

def confirmationIdsJson (ids : ConfirmationPostingIds) : Json :=
  ofTable [("payControlDebit", some (.string ids.payControlDebit.value)),
    ("payPayableCredit", some (.string ids.payPayableCredit.value)),
    ("receiveReceivableDebit", some (.string ids.receiveReceivableDebit.value)),
    ("receiveControlCredit", some (.string ids.receiveControlCredit.value))]

def reversalIdsJson (ids : ReversalPostingIds) : Json :=
  ofTable [("payControlCredit", some (.string ids.payControlCredit.value)),
    ("payPayableDebit", some (.string ids.payPayableDebit.value)),
    ("receiveReceivableCredit", some (.string ids.receiveReceivableCredit.value)),
    ("receiveControlDebit", some (.string ids.receiveControlDebit.value))]

theorem parseConfirmationIds_reads {value : Json} (hs : value.Sorted) (path : Bytes) :
    Reads (parseConfirmationIds value path) fun ids => value = confirmationIdsJson ids := by
  apply object_reads hs path
  · decide
  · exact fun _ => rfl
  · intro ho
    refine (Reads.bind (parseId_reads ho .posting "payControlDebit" path) fun a _ =>
      Reads.bind (parseId_reads ho .posting "payPayableCredit" path) fun b _ =>
      Reads.bind (parseId_reads ho .posting "receiveReceivableDebit" path) fun c _ =>
      Reads.bind (parseId_reads ho .posting "receiveControlCredit" path) fun d _ =>
      Reads.pure (ConfirmationPostingIds.mk a b c d)).congr fun ids => ?_
    simp only [List.forall_mem_cons]
    constructor
    · rintro ⟨_, ha, _, hb, _, hc, _, hd, rfl⟩
      exact ⟨ha, hb, hc, hd, nofun⟩
    · rintro ⟨ha, hb, hc, hd, -⟩
      exact ⟨_, ha, _, hb, _, hc, _, hd, rfl⟩

theorem parseReversalIds_reads {value : Json} (hs : value.Sorted) (path : Bytes) :
    Reads (parseReversalIds value path) fun ids => value = reversalIdsJson ids := by
  apply object_reads hs path
  · decide
  · exact fun _ => rfl
  · intro ho
    refine (Reads.bind (parseId_reads ho .posting "payControlCredit" path) fun a _ =>
      Reads.bind (parseId_reads ho .posting "payPayableDebit" path) fun b _ =>
      Reads.bind (parseId_reads ho .posting "receiveReceivableCredit" path) fun c _ =>
      Reads.bind (parseId_reads ho .posting "receiveControlDebit" path) fun d _ =>
      Reads.pure (ReversalPostingIds.mk a b c d)).congr fun ids => ?_
    simp only [List.forall_mem_cons]
    constructor
    · rintro ⟨_, ha, _, hb, _, hc, _, hd, rfl⟩
      exact ⟨ha, hb, hc, hd, nofun⟩
    · rintro ⟨ha, hb, hc, hd, -⟩
      exact ⟨_, ha, _, hb, _, hc, _, hd, rfl⟩

end Backbook

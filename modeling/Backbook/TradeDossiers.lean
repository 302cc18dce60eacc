import Backbook.TradeRegister

/-! The register trade by trade. An operation changes the dossier of the trade
that it names and reads no other one, and an end of day treats every trade by
itself. -/
namespace Backbook

open Std

/-- What the register holds about one trade. -/
@[ext] structure Dossier where
  versions : Finset Trade
  entries : Finset LedgerEntry

def LedgerEntry.concerns (entry : LedgerEntry) (tradeId : TradeId) : Bool :=
  entry.contents.any (·.tradeId = tradeId)

def Register.dossier (self : Register) (tradeId : TradeId) : Dossier :=
  ⟨self.versions.filter (·.id = tradeId), self.entries.filter (·.concerns tradeId)⟩

def Operation.concerns (tradeId : TradeId) : Operation → Bool
  | .bookTrade named _ _ _ _ => named = tradeId
  | .confirmTrade named _ _ => named = tradeId
  | .amendTrade named _ _ _ _ => named = tradeId
  | .cancelTrade named _ _ => named = tradeId
  | .runEod _ => true

structure Register.Definite (register : Register) : Prop where
  keyed : ∀ trade ∈ register.versions, ∀ other ∈ register.versions, trade.id = other.id →
    trade.version = other.version → trade = other
  confirmed_once : ∀ entry ∈ register.entries, ∀ other ∈ register.entries, ∀ trade : Trade,
    entry.contents = trade.confirmationContents → other.contents = trade.confirmationContents →
      entry = other

section Entries

variable {entry : LedgerEntry} {ids : List PostingId} {tradeId : TradeId}

theorem LedgerEntry.concerns_of_confirmation {trade : Trade}
    (h : entry.contents = trade.confirmationContents) :
    entry.concerns tradeId = true ↔ trade.id = tradeId := by
  simp [LedgerEntry.concerns, h, Trade.confirmationContents]

/-- A reversal concerns the trade of the entry that it takes back. -/
theorem LedgerEntry.Posts.concerns_of_reversal {original : LedgerEntry} {trade : Trade}
    (h : entry.Posts (original.postings.map Posting.reversalContent) ids)
    (ho : original.contents = trade.confirmationContents) :
    entry.concerns tradeId = true ↔ trade.id = tradeId := by
  have hsame : entry.concerns tradeId = original.concerns tradeId := by
    unfold LedgerEntry.concerns
    rw [h.1, LedgerEntry.contents, List.any_map, List.any_map]
    rfl
  rw [hsame]
  exact concerns_of_confirmation ho

end Entries

section Filters

variable {versions : Finset Trade} {entries : Finset LedgerEntry} {old new : Trade}
  {tradeId : TradeId}

theorem filter_restate_other (ho : old.id ≠ tradeId) (hn : new.id ≠ tradeId) :
    (insert new (versions.erase old)).filter (·.id = tradeId) =
      versions.filter (·.id = tradeId) := by
  ext trade
  simp only [Finset.mem_filter, Finset.mem_insert, Finset.mem_erase]
  constructor
  · intro h
    obtain ⟨rfl | ⟨_, hm⟩, hid⟩ := h
    · exact absurd hid hn
    · exact ⟨hm, hid⟩
  · intro h
    refine ⟨Or.inr ⟨?_, h.1⟩, h.2⟩
    intro he
    exact ho (he ▸ h.2)

theorem filter_image_endOfDay (asOfDate : IsoDate) :
    (versions.image (Trade.endOfDay asOfDate)).filter (·.id = tradeId) =
      (versions.filter (·.id = tradeId)).image (Trade.endOfDay asOfDate) := by
  have hid (trade : Trade) : (trade.endOfDay asOfDate).id = trade.id := by
    unfold Trade.endOfDay
    split_ifs <;> rfl
  rw [Finset.filter_image]
  simp only [hid]

theorem filter_post_other {entry : LedgerEntry} (h : ¬entry.concerns tradeId = true) :
    (insert entry entries).filter (·.concerns tradeId) = entries.filter (·.concerns tradeId) := by
  rw [Finset.filter_insert, if_neg h]

end Filters

namespace Register

variable {capacity : LimitKey → Option ℤ} {first second first' second' : Register}
  {operation : Operation} {tradeId : TradeId}

/-- An idle run maps the same function as one that settles, to no effect. -/
theorem Takes.runEod_eq {asOfDate : IsoDate} (h : first.Takes capacity (.runEod asOfDate) first') :
    first'.versions = first.versions.image (Trade.endOfDay asOfDate) ∧
      first'.entries = first.entries := by
  cases h with
  | settle hdue hnets => exact ⟨rfl, rfl⟩
  | idle hnone =>
    refine ⟨?_, rfl⟩
    have hkept : ∀ trade ∈ first.versions, trade.endOfDay asOfDate = id trade := by
      intro trade ht
      by_cases hs : trade.state = .confirmed
      · exact Trade.endOfDay_of_later (hnone trade ht hs)
      · exact Trade.endOfDay_of_ne hs
    rw [Finset.image_congr hkept, Finset.image_id]

theorem Takes.dossier_of_runEod {asOfDate : IsoDate}
    (h : first.Takes capacity (.runEod asOfDate) first') (tradeId : TradeId) :
    first'.dossier tradeId = ⟨(first.dossier tradeId).versions.image (Trade.endOfDay asOfDate),
      (first.dossier tradeId).entries⟩ := by
  obtain ⟨hversions, hentries⟩ := h.runEod_eq
  simp only [dossier, hversions, hentries, filter_image_endOfDay]

/-- Nothing changes about a trade that an operation does not concern. -/
theorem Takes.dossier_kept (h : first.Takes capacity operation first')
    (hc : operation.concerns tradeId = false) : first'.dossier tradeId = first.dossier tradeId := by
  have hne {named : TradeId} (hd : decide (named = tradeId) = false) : named ≠ tradeId :=
    of_decide_eq_false hd
  cases h with
  | book hnew =>
    apply Dossier.ext
    · simp only [dossier]
      rw [Finset.filter_insert, if_neg]
      exact hne hc
    · rfl
  | @confirm named _ _ trade entry hcur hs hroom hids hentry =>
    have hid : trade.id ≠ tradeId := hcur.id_eq ▸ hne hc
    apply Dossier.ext
    · exact filter_restate_other hid hid
    · apply filter_post_other
      rw [LedgerEntry.concerns_of_confirmation hentry.1]
      exact hid
  | @amend named _ terms _ _ trade original reversal replacement hcur hs hversion horiginal
      hcontents hroom hids hreversal hreplacement =>
    have hid : trade.id ≠ tradeId := hcur.id_eq ▸ hne hc
    apply Dossier.ext
    · have hnew : (trade.asReplacement terms).id ≠ tradeId := hid
      simp only [dossier]
      rw [Finset.filter_insert, if_neg hnew]
      exact filter_restate_other hid hid
    · simp only [dossier]
      rw [filter_post_other, filter_post_other]
      · rw [hreversal.concerns_of_reversal hcontents]
        exact hid
      · rw [LedgerEntry.concerns_of_confirmation hreplacement.1]
        exact hid
  | @discard named _ trade hcur hs =>
    have hid : trade.id ≠ tradeId := hcur.id_eq ▸ hne hc
    apply Dossier.ext
    · exact filter_restate_other hid hid
    · rfl
  | @unwind named _ _ trade original reversal hcur hs horiginal hcontents hids hreversal =>
    have hid : trade.id ≠ tradeId := hcur.id_eq ▸ hne hc
    apply Dossier.ext
    · exact filter_restate_other hid hid
    · apply filter_post_other
      rw [hreversal.concerns_of_reversal hcontents]
      exact hid
  | settle hdue hnets => cases hc
  | idle hnone => cases hc

/-- Registers with the same dossier agree on its last version. -/
theorem Current.eq_of_dossier {version : UInt32} {trade other : Trade} (hd : second.Definite)
    (hsame : first.dossier tradeId = second.dossier tradeId)
    (h : first.Current tradeId version trade) (h' : second.Current tradeId version other) :
    trade = other := by
  have hmem : trade ∈ (first.dossier tradeId).versions :=
    Finset.mem_filter.mpr ⟨h.mem, h.id_eq⟩
  rw [hsame] at hmem
  apply hd.keyed trade (Finset.mem_filter.mp hmem).1 other h'.mem
  · rw [h.id_eq, h'.id_eq]
  · rw [h.version_eq, h'.version_eq]

/-- They agree on the confirmation of one of its versions too. -/
theorem confirmation_eq_of_dossier {trade : Trade} {original other : LedgerEntry}
    (hd : second.Definite) (hsame : first.dossier trade.id = second.dossier trade.id)
    (h : original ∈ first.entries) (hc : original.contents = trade.confirmationContents)
    (h' : other ∈ second.entries) (hc' : other.contents = trade.confirmationContents) :
    original = other := by
  have hmem : original ∈ (first.dossier trade.id).entries :=
    Finset.mem_filter.mpr ⟨h, (LedgerEntry.concerns_of_confirmation hc).mpr rfl⟩
  rw [hsame] at hmem
  exact hd.confirmed_once original (Finset.mem_filter.mp hmem).1 other h' trade hc hc'

/-- What an operation makes of a dossier depends on that dossier alone. -/
theorem Takes.dossier_eq (hd : second.Definite) (h : first.Takes capacity operation first')
    (h' : second.Takes capacity operation second') (hc : operation.concerns tradeId = true)
    (hsame : first.dossier tradeId = second.dossier tradeId) :
    first'.dossier tradeId = second'.dossier tradeId := by
  have hversions : first.versions.filter (·.id = tradeId) =
      second.versions.filter (·.id = tradeId) := congrArg Dossier.versions hsame
  have hentries : first.entries.filter (·.concerns tradeId) =
      second.entries.filter (·.concerns tradeId) := congrArg Dossier.entries hsame
  cases h with
  | @book named _ _ _ _ hnew =>
    cases h' with
    | book hnew' =>
      have hid : named = tradeId := of_decide_eq_true hc
      apply Dossier.ext
      · simp only [dossier, Finset.filter_insert, hversions]
      · exact hentries
  | @confirm named _ _ trade entry hcur hs hroom hids hentry =>
    cases h' with
    | @confirm _ _ _ other entry' hcur' hs' hroom' hids' hentry' =>
      obtain rfl : named = tradeId := of_decide_eq_true hc
      obtain rfl : trade = other := hcur.eq_of_dossier hd hsame hcur'
      obtain rfl : entry = entry' := hentry.unique hentry'
      apply Dossier.ext
      · simp only [dossier, Finset.filter_insert, Finset.filter_erase, hversions]
      · simp only [dossier, Finset.filter_insert, hentries]
  | @amend named _ terms _ _ trade original reversal replacement hcur hs hversion horiginal
      hcontents hroom hids hreversal hreplacement =>
    cases h' with
    | @amend _ _ _ _ _ other original' reversal' replacement' hcur' hs' hversion' horiginal'
        hcontents' hroom' hids' hreversal' hreplacement' =>
      obtain rfl : named = tradeId := of_decide_eq_true hc
      obtain rfl : trade = other := hcur.eq_of_dossier hd hsame hcur'
      -- The same confirmation is reversed, so the same entries are posted.
      obtain rfl : original = original' :=
        confirmation_eq_of_dossier hd (hcur.id_eq ▸ hsame) horiginal hcontents horiginal' hcontents'
      obtain rfl : reversal = reversal' := hreversal.unique hreversal'
      obtain rfl : replacement = replacement' := hreplacement.unique hreplacement'
      apply Dossier.ext
      · simp only [dossier, Finset.filter_insert, Finset.filter_erase, hversions]
      · simp only [dossier, Finset.filter_insert, hentries]
  | @discard named _ trade hcur hs =>
    cases h' with
    | @discard _ _ other hcur' hs' =>
      obtain rfl : named = tradeId := of_decide_eq_true hc
      obtain rfl : trade = other := hcur.eq_of_dossier hd hsame hcur'
      apply Dossier.ext
      · simp only [dossier, Finset.filter_insert, Finset.filter_erase, hversions]
      · exact hentries
  | @unwind named _ _ trade original reversal hcur hs horiginal hcontents hids hreversal =>
    cases h' with
    | @unwind _ _ _ other original' reversal' hcur' hs' horiginal' hcontents' hids' hreversal' =>
      obtain rfl : named = tradeId := of_decide_eq_true hc
      obtain rfl : trade = other := hcur.eq_of_dossier hd hsame hcur'
      obtain rfl : original = original' :=
        confirmation_eq_of_dossier hd (hcur.id_eq ▸ hsame) horiginal hcontents horiginal' hcontents'
      obtain rfl : reversal = reversal' := hreversal.unique hreversal'
      apply Dossier.ext
      · simp only [dossier, Finset.filter_insert, Finset.filter_erase, hversions]
      · simp only [dossier, Finset.filter_insert, hentries]
  | settle hdue hnets =>
    have hstep : first.Takes capacity _ _ := .settle hdue hnets
    rw [hstep.dossier_of_runEod, h'.dossier_of_runEod, hsame]
  | idle hnone =>
    have hstep : first.Takes capacity _ _ := .idle hnone
    rw [hstep.dossier_of_runEod, h'.dossier_of_runEod, hsame]

end Register

end Backbook

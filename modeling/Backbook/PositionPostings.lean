import Backbook.PositionMoves

namespace Backbook

open Std

def ledgerPostings (ledger : List LedgerEntry) : List Posting := ledger.flatMap LedgerEntry.postings

def ledgerIds (ledger : List LedgerEntry) : List PostingId := (ledgerPostings ledger).map Posting.id

theorem ledgerIds_append (ledger : List LedgerEntry) (entry : LedgerEntry) :
    ledgerIds (ledger ++ [entry]) = ledgerIds ledger ++ entry.postings.map Posting.id := by
  simp [ledgerIds, ledgerPostings]

/-- Distinct identifiers name the entry that holds them. -/
theorem index_unique {ledger : List LedgerEntry} (hd : (ledgerIds ledger).Nodup) {i j : ℕ}
    {a b : LedgerEntry} (ha : ledger[i]? = some a) (hb : ledger[j]? = some b)
    (hids : a.postings.map Posting.id = b.postings.map Posting.id) : i = j := by
  have hflat : (ledger.flatMap fun e => e.postings.map Posting.id).Nodup := by
    rw [← List.map_flatMap]
    exact hd
  obtain ⟨_, hpair⟩ := List.nodup_flatMap.mp hflat
  obtain ⟨hi, hia⟩ := List.getElem?_eq_some_iff.mp ha
  obtain ⟨hj, hjb⟩ := List.getElem?_eq_some_iff.mp hb
  obtain ⟨x, xs, hx⟩ := List.exists_cons_of_ne_nil a.postings_ne_nil
  have hxa : x.id ∈ a.postings.map Posting.id := by simp [hx]
  by_contra hne
  rcases Nat.lt_or_gt_of_ne hne with hlt | hlt
  · have hdis := List.pairwise_iff_getElem.mp hpair i j hi hj hlt
    simp only [Function.onFun, hia, hjb] at hdis
    exact hdis hxa (hids ▸ hxa)
  · have hdis := List.pairwise_iff_getElem.mp hpair j i hj hi hlt
    simp only [Function.onFun, hia, hjb] at hdis
    exact hdis (hids ▸ hxa) hxa

theorem IsReversalOf.links {original reversal : LedgerEntry} (h : IsReversalOf original reversal) :
    reversal.postings.map Posting.reversalOf = original.postings.map (some ∘ Posting.id) := by
  have hc := congrArg (List.map PostingContent.reversalOf) h
  simpa [LedgerEntry.contents, Posting.content, Posting.reversalContent, Function.comp_def] using hc

/-- An entry reverses the identifiers of one entry only. -/
theorem IsReversalOf.ids_eq {a b reversal : LedgerEntry} (ha : IsReversalOf a reversal)
    (hb : IsReversalOf b reversal) : a.postings.map Posting.id = b.postings.map Posting.id := by
  have h := ha.links.symm.trans hb.links
  rw [← List.map_map, ← List.map_map] at h
  exact List.map_injective_iff.mpr (Option.some_injective _) h

/-- A confirmation reverses nothing. -/
theorem not_isReversalOf_of_contents {original entry : LedgerEntry} {trade : Trade}
    (h : entry.contents = trade.confirmationContents) : ¬IsReversalOf original entry := by
  intro hrev
  obtain ⟨x, xs, hx⟩ := List.exists_cons_of_ne_nil original.postings_ne_nil
  rw [IsReversalOf, h, hx] at hrev
  simp [Trade.confirmationContents, Posting.reversalContent] at hrev

def Trade.reversed (trade : Trade) : Prop := trade.state = .superseded ∨ trade.state = .cancelled

structure Positions.Posted (p : Positions) : Prop where
  nodup : (ledgerIds p.ledgerEntries).Nodup
  ids : ∀ id, id ∈ p.postingIds ↔ id ∈ ledgerIds p.ledgerEntries
  indexed : ∀ (key : TradeVersionKey) (i : ℕ), p.confirmationEntries[key]? = some i →
    ∃ trade entry, p.trades[key]? = some trade ∧ trade.state ≠ .captured ∧
      p.ledgerEntries[i]? = some entry ∧ entry.contents = trade.confirmationContents
  live : ∀ (key : TradeVersionKey) (trade : Trade), p.trades[key]? = some trade →
    trade.state = .confirmed ∨ trade.state = .superseded ∨ trade.state = .settled →
      ∃ i, p.confirmationEntries[key]? = some i
  injective : ∀ (key other : TradeVersionKey) (i : ℕ), p.confirmationEntries[key]? = some i →
    p.confirmationEntries[other]? = some i → key = other
  others : ∀ (j : ℕ) (entry : LedgerEntry), p.ledgerEntries[j]? = some entry →
    (∀ key : TradeVersionKey, p.confirmationEntries[key]? ≠ some j) →
      ∃ (key : TradeVersionKey) (i : ℕ) (trade : Trade) (original : LedgerEntry),
        p.confirmationEntries[key]? = some i ∧ p.trades[key]? = some trade ∧ trade.reversed ∧
        p.ledgerEntries[i]? = some original ∧ i < j ∧ IsReversalOf original entry
  reversed : ∀ (key : TradeVersionKey) (i : ℕ) (trade : Trade) (original : LedgerEntry),
    p.confirmationEntries[key]? = some i → p.trades[key]? = some trade → trade.reversed →
      p.ledgerEntries[i]? = some original →
        ∃ (j : ℕ) (entry : LedgerEntry), p.ledgerEntries[j]? = some entry ∧
          IsReversalOf original entry
  once : ∀ (i j k : ℕ) (original a b : LedgerEntry), p.ledgerEntries[i]? = some original →
    p.ledgerEntries[j]? = some a → p.ledgerEntries[k]? = some b →
      IsReversalOf original a → IsReversalOf original b → j = k

variable {p q : Positions}

theorem Positions.Posted.initial (limits : LimitHierarchy) :
    (State.initial limits).positions.Posted := by
  constructor <;> simp [State.initial, State.positions, ledgerIds, ledgerPostings]

/-- Any reversal in the ledger takes back the confirmation of a reversed version. -/
theorem Positions.Posted.source (h : p.Posted) {j : ℕ} {entry original : LedgerEntry}
    (he : p.ledgerEntries[j]? = some entry) (hr : IsReversalOf original entry) :
    ∃ (key : TradeVersionKey) (i : ℕ) (trade : Trade) (source : LedgerEntry),
      p.confirmationEntries[key]? = some i ∧ p.trades[key]? = some trade ∧ trade.reversed ∧
      p.ledgerEntries[i]? = some source ∧ i < j ∧ IsReversalOf source entry := by
  -- An indexed entry is a confirmation, which reverses nothing.
  by_cases hm : ∃ key : TradeVersionKey, p.confirmationEntries[key]? = some j
  · obtain ⟨key, hk⟩ := hm
    obtain ⟨trade, other, _, _, ho, hc⟩ := h.indexed key j hk
    rw [he] at ho
    obtain rfl := Option.some.inj ho
    exact absurd hr (not_isReversalOf_of_contents hc)
  · exact h.others j entry he (fun key hk => hm ⟨key, hk⟩)

/-- The confirmation of a version that is not reversed stands. -/
theorem Positions.Posted.stands (h : p.Posted) {key : TradeVersionKey} {i j : ℕ} {trade : Trade}
    {original entry : LedgerEntry} (hk : p.confirmationEntries[key]? = some i)
    (ht : p.trades[key]? = some trade) (hs : ¬trade.reversed)
    (ho : p.ledgerEntries[i]? = some original) (he : p.ledgerEntries[j]? = some entry) :
    ¬IsReversalOf original entry := by
  intro hr
  obtain ⟨key', i', trade', source, hk', ht', hrev, ho', _, hr'⟩ := h.source he hr
  -- One entry reverses one original, and one original is indexed once.
  obtain rfl := index_unique h.nodup ho' ho (hr'.ids_eq hr)
  obtain rfl := h.injective _ _ _ hk' hk
  rw [ht] at ht'
  obtain rfl := Option.some.inj ht'
  exact hs hrev

/-- A version without an index entry was never confirmed. -/
theorem Positions.Posted.not_indexed (h : p.Posted) (key : TradeVersionKey)
    (hold : ∀ old, p.trades[key]? = some old → old.state = .captured) :
    p.confirmationEntries[key]? = none := by
  rw [Option.eq_none_iff_forall_not_mem]
  intro i hi
  obtain ⟨trade, _, ht, hs, _⟩ := h.indexed key i hi
  exact hs (hold trade ht)

theorem Positions.Posted.index_lt (h : p.Posted) {key : TradeVersionKey} {i : ℕ}
    (hk : p.confirmationEntries[key]? = some i) : i < p.ledgerEntries.length := by
  obtain ⟨_, _, _, _, he, _⟩ := h.indexed key i hk
  exact (List.getElem?_eq_some_iff.mp he).1

/-- Storing a version without posting: the version is not indexed, or it stays
unreversed under the same contents. -/
theorem Positions.Posted.store (h : p.Posted) (key : TradeVersionKey) (trade : Trade)
    (hnew : trade.state = .confirmed ∨ trade.state = .superseded ∨ trade.state = .settled →
      ∃ i, p.confirmationEntries[key]? = some i)
    (hsame : ∀ i, p.confirmationEntries[key]? = some i → trade.state = .settled ∧
      ∃ old, p.trades[key]? = some old ∧ old.state = .confirmed ∧
        trade.confirmationContents = old.confirmationContents)
    (htr : q.trades = p.trades.insert key trade) (hled : q.ledgerEntries = p.ledgerEntries)
    (hcon : q.confirmationEntries = p.confirmationEntries) (hids : q.postingIds = p.postingIds) :
    q.Posted := by
  have hlookup (k : TradeVersionKey) :
      q.trades[k]? = if k = key then some trade else p.trades[k]? := by
    rw [htr, OrderedMap.getElem?_insert_eq]
  refine ⟨?_, ?_, ?_, ?_, ?_, ?_, ?_, ?_⟩ <;> simp only [hled, hcon, hids]
  · exact h.nodup
  · exact h.ids
  · intro k i hk
    rw [hlookup]
    split_ifs with hkey
    · -- The index knew the version already, as a confirmed one.
      subst hkey
      obtain ⟨hset, old, ho, _, hc⟩ := hsame i hk
      obtain ⟨other, entry, ho', _, he, hcont⟩ := h.indexed k i hk
      rw [ho] at ho'
      obtain rfl := Option.some.inj ho'
      exact ⟨trade, entry, rfl, by simp [hset], he, hcont.trans hc.symm⟩
    · exact h.indexed k i hk
  · intro k other ho hs
    rw [hlookup] at ho
    split_ifs at ho with hkey
    · subst hkey
      obtain rfl := Option.some.inj ho
      exact hnew hs
    · exact h.live k other ho hs
  · exact h.injective
  · -- A reversal belongs to a version that was left, which is not the stored one.
    intro j entry he hno
    obtain ⟨k, i, other, original, hk, ho, hrev, hrest⟩ := h.others j entry he hno
    refine ⟨k, i, other, original, hk, ?_, hrev, hrest⟩
    rw [hlookup, if_neg ?_]
    · exact ho
    · rintro rfl
      obtain ⟨_, old, hold, hconf, _⟩ := hsame i hk
      rw [ho] at hold
      obtain rfl := Option.some.inj hold
      simp [Trade.reversed, hconf] at hrev
  · intro k i other original hk ho hrev hor
    rw [hlookup] at ho
    split_ifs at ho with hkey
    · subst hkey
      obtain rfl := Option.some.inj ho
      simp [Trade.reversed, (hsame i hk).1] at hrev
    · exact h.reversed k i other original hk ho hrev hor
  · exact h.once

section Append

structure Positions.Appends (p q : Positions) (key : TradeVersionKey) (trade : Trade)
    (entry : LedgerEntry) : Prop where
  stores : q.trades = p.trades.insert key trade
  posts : q.ledgerEntries = p.ledgerEntries ++ [entry]
  names : q.postingIds = insertPostingIds p.postingIds entry
  fresh : ∀ posting ∈ entry.postings, posting.id ∉ p.postingIds

variable {key : TradeVersionKey} {trade : Trade} {entry : LedgerEntry}

theorem Positions.Appends.trade_at (ha : p.Appends q key trade entry) (k : TradeVersionKey) :
    q.trades[k]? = if k = key then some trade else p.trades[k]? := by
  rw [ha.stores, OrderedMap.getElem?_insert_eq]

theorem Positions.Appends.last_entry (ha : p.Appends q key trade entry) :
    q.ledgerEntries[p.ledgerEntries.length]? = some entry := by
  simp [ha.posts]

theorem Positions.Appends.keeps (ha : p.Appends q key trade entry) {j : ℕ} {e : LedgerEntry}
    (hj : p.ledgerEntries[j]? = some e) : q.ledgerEntries[j]? = some e := by
  rw [ha.posts, List.getElem?_append_left (List.getElem?_eq_some_iff.mp hj).1]
  exact hj

/-- An old entry, or the appended one. -/
theorem Positions.Appends.entry_cases (ha : p.Appends q key trade entry) {j : ℕ} {e : LedgerEntry}
    (hj : q.ledgerEntries[j]? = some e) :
    p.ledgerEntries[j]? = some e ∨ (j = p.ledgerEntries.length ∧ e = entry) := by
  rw [ha.posts] at hj
  rcases Nat.lt_trichotomy j p.ledgerEntries.length with hlt | rfl | hgt
  · rw [List.getElem?_append_left hlt] at hj
    exact Or.inl hj
  · simp only [List.getElem?_concat_length, Option.some.injEq] at hj
    exact Or.inr ⟨rfl, hj.symm⟩
  · rw [List.getElem?_eq_none (by simp; omega)] at hj
    cases hj

theorem Positions.Appends.nodup (ha : p.Appends q key trade entry) (h : p.Posted) :
    (ledgerIds q.ledgerEntries).Nodup := by
  rw [ha.posts, ledgerIds_append, List.nodup_append]
  refine ⟨h.nodup, entry.ids_nodup, ?_⟩
  rintro a hm b hb rfl
  obtain ⟨posting, hp, rfl⟩ := List.mem_map.mp hb
  exact ha.fresh posting hp ((h.ids _).mpr hm)

theorem Positions.Appends.mem_ids (ha : p.Appends q key trade entry) (h : p.Posted)
    (id : PostingId) : id ∈ q.postingIds ↔ id ∈ ledgerIds q.ledgerEntries := by
  rw [ha.names, ha.posts, mem_insertPostingIds, ledgerIds_append, List.mem_append, h.ids]
  exact or_comm

/-- What an old entry reverses is an old entry too. -/
theorem Positions.Appends.original_old (ha : p.Appends q key trade entry) (h : p.Posted)
    {i j : ℕ} {original e : LedgerEntry} (hi : q.ledgerEntries[i]? = some original)
    (hj : p.ledgerEntries[j]? = some e) (hr : IsReversalOf original e) :
    p.ledgerEntries[i]? = some original := by
  obtain ⟨_, i', _, source, _, _, _, hs, _, hr'⟩ := h.source hj hr
  have hkept := ha.keeps hs
  obtain rfl := index_unique (ha.nodup h) hkept hi (hr'.ids_eq hr)
  rw [← hi, hkept]
  exact hs

/-- An old reversal still stands behind an old original. -/
theorem Positions.Appends.reversal_kept (ha : p.Appends q key trade entry) (h : p.Posted)
    {k : TradeVersionKey} {i : ℕ} {other : Trade} {original : LedgerEntry}
    (hk : p.confirmationEntries[k]? = some i) (ho : p.trades[k]? = some other)
    (hrev : other.reversed) (hi : q.ledgerEntries[i]? = some original) :
    ∃ (j : ℕ) (e : LedgerEntry), q.ledgerEntries[j]? = some e ∧ IsReversalOf original e := by
  obtain ⟨_, source, _, _, hs, _⟩ := h.indexed k i hk
  obtain rfl := Option.some.inj ((ha.keeps hs).symm.trans hi)
  obtain ⟨j, e, he, hr⟩ := h.reversed k i other source hk ho hrev hs
  exact ⟨j, e, ha.keeps he, hr⟩

end Append

section Enter

structure Positions.Enters (p q : Positions) (key : TradeVersionKey) (trade : Trade)
    (entry : LedgerEntry) : Prop extends p.Appends q key trade entry where
  unposted : ∀ old, p.trades[key]? = some old → old.state = .captured
  confirmed : trade.state = .confirmed
  contents : entry.contents = trade.confirmationContents
  indexes : q.confirmationEntries = p.confirmationEntries.insert key p.ledgerEntries.length

variable {key : TradeVersionKey} {trade : Trade} {entry : LedgerEntry}

theorem Positions.Enters.index_at (he : p.Enters q key trade entry) (k : TradeVersionKey) :
    q.confirmationEntries[k]? =
      if k = key then some p.ledgerEntries.length else p.confirmationEntries[k]? := by
  rw [he.indexes, OrderedMap.getElem?_insert_eq]

/-- The version that enters was not indexed, so every old key is another one. -/
theorem Positions.Enters.ne_of_indexed (he : p.Enters q key trade entry) (h : p.Posted)
    {k : TradeVersionKey} {i : ℕ} (hk : p.confirmationEntries[k]? = some i) : k ≠ key := by
  rintro rfl
  rw [h.not_indexed k he.unposted] at hk
  cases hk

/-- The appended entry is a confirmation, so a reversal is an old entry. -/
theorem Positions.Enters.reversal_old (he : p.Enters q key trade entry) {j : ℕ}
    {original e : LedgerEntry} (hj : q.ledgerEntries[j]? = some e) (hr : IsReversalOf original e) :
    p.ledgerEntries[j]? = some e := by
  rcases he.entry_cases hj with hold | ⟨_, rfl⟩
  · exact hold
  · exact absurd hr (not_isReversalOf_of_contents he.contents)

theorem Positions.Enters.injective (he : p.Enters q key trade entry) (h : p.Posted)
    {k k' : TradeVersionKey} {i : ℕ} (hk : q.confirmationEntries[k]? = some i)
    (hk' : q.confirmationEntries[k']? = some i) : k = k' := by
  rw [he.index_at] at hk hk'
  split_ifs at hk hk' with h1 h2 h2
  · rw [h1, h2]
  · cases hk
    exact absurd (h.index_lt hk') (lt_irrefl _)
  · cases hk'
    exact absurd (h.index_lt hk) (lt_irrefl _)
  · exact h.injective k k' i hk hk'

theorem Positions.Enters.others (he : p.Enters q key trade entry) (h : p.Posted) {j : ℕ}
    {e : LedgerEntry} (hj : q.ledgerEntries[j]? = some e)
    (hno : ∀ k : TradeVersionKey, q.confirmationEntries[k]? ≠ some j) :
    ∃ (k : TradeVersionKey) (i : ℕ) (other : Trade) (original : LedgerEntry),
      q.confirmationEntries[k]? = some i ∧ q.trades[k]? = some other ∧ other.reversed ∧
      q.ledgerEntries[i]? = some original ∧ i < j ∧ IsReversalOf original e := by
  rcases he.entry_cases hj with hold | ⟨rfl, rfl⟩
  · have hnone (k : TradeVersionKey) : p.confirmationEntries[k]? ≠ some j := by
      intro hk
      apply hno k
      rw [he.index_at, if_neg (he.ne_of_indexed h hk), hk]
    obtain ⟨k, i, other, original, hk, ho, hrev, hor, hlt, hr⟩ := h.others j e hold hnone
    have hne := he.ne_of_indexed h hk
    refine ⟨k, i, other, original, ?_, ?_, hrev, he.keeps hor, hlt, hr⟩
    · rw [he.index_at, if_neg hne, hk]
    · rw [he.trade_at, if_neg hne, ho]
  · exact absurd (by rw [he.index_at, if_pos rfl]) (hno key)

theorem Positions.Posted.enter (h : p.Posted) (he : p.Enters q key trade entry) : q.Posted where
  nodup := he.nodup h
  ids := he.mem_ids h
  indexed k i hk := by
    rw [he.index_at] at hk
    rw [he.trade_at]
    split_ifs at hk ⊢ with hkey
    · obtain rfl := Option.some.inj hk
      exact ⟨trade, entry, rfl, by simp [he.confirmed], he.last_entry, he.contents⟩
    · obtain ⟨other, e, ho, hcap, hi, hc⟩ := h.indexed k i hk
      exact ⟨other, e, ho, hcap, he.keeps hi, hc⟩
  live k other ho hst := by
    rw [he.trade_at] at ho
    rw [he.index_at]
    split_ifs at ho ⊢ with hkey
    · exact ⟨_, rfl⟩
    · exact h.live k other ho hst
  injective _ _ _ hk hk' := he.injective h hk hk'
  others _ _ hj hno := he.others h hj hno
  reversed k i other original hk ho hrev hor := by
    rw [he.index_at] at hk
    rw [he.trade_at] at ho
    split_ifs at hk ho with hkey
    · obtain rfl := Option.some.inj ho
      simp [Trade.reversed, he.confirmed] at hrev
    · exact he.reversal_kept h hk ho hrev hor
  once i j k original a b hi hj hk hra hrb := by
    have hj' := he.reversal_old hj hra
    have hk' := he.reversal_old hk hrb
    exact h.once i j k original a b (he.original_old h hi hj' hra) hj' hk' hra hrb

end Enter

section Leave

structure Positions.Leaves (p q : Positions) (key : TradeVersionKey) (trade left : Trade)
    (index : ℕ) (original reversal : LedgerEntry) : Prop extends
    p.Appends q key left reversal where
  stored : p.trades[key]? = some trade
  confirmed : trade.state = .confirmed
  left_reversed : left.reversed
  contents : left.confirmationContents = trade.confirmationContents
  indexed : p.confirmationEntries[key]? = some index
  posted : p.ledgerEntries[index]? = some original
  reverses : IsReversalOf original reversal
  index_same : q.confirmationEntries = p.confirmationEntries

variable {key : TradeVersionKey} {trade left : Trade} {index : ℕ} {original reversal : LedgerEntry}

theorem Positions.Leaves.not_reversed
    (hl : p.Leaves q key trade left index original reversal) : ¬trade.reversed := by
  simp [Trade.reversed, hl.confirmed]

/-- The new entry reverses the version's confirmation. -/
theorem Positions.Leaves.original_eq (hl : p.Leaves q key trade left index original reversal)
    (h : p.Posted) {i : ℕ} {other : LedgerEntry} (hi : q.ledgerEntries[i]? = some other)
    (hr : IsReversalOf other reversal) : other = original := by
  have hkept := hl.keeps hl.posted
  obtain rfl := index_unique (hl.nodup h) hi hkept (hr.ids_eq hl.reverses)
  exact Option.some.inj (hi.symm.trans hkept)

/-- No old entry reverses it. -/
theorem Positions.Leaves.not_old (hl : p.Leaves q key trade left index original reversal)
    (h : p.Posted) {j : ℕ} {e : LedgerEntry} (hj : p.ledgerEntries[j]? = some e) :
    ¬IsReversalOf original e :=
  h.stands hl.indexed hl.stored hl.not_reversed hl.posted hj

theorem Positions.Leaves.others (hl : p.Leaves q key trade left index original reversal)
    (h : p.Posted) {j : ℕ} {e : LedgerEntry} (hj : q.ledgerEntries[j]? = some e)
    (hno : ∀ k : TradeVersionKey, q.confirmationEntries[k]? ≠ some j) :
    ∃ (k : TradeVersionKey) (i : ℕ) (other : Trade) (source : LedgerEntry),
      q.confirmationEntries[k]? = some i ∧ q.trades[k]? = some other ∧ other.reversed ∧
      q.ledgerEntries[i]? = some source ∧ i < j ∧ IsReversalOf source e := by
  rw [hl.index_same] at hno ⊢
  rcases hl.entry_cases hj with hold | ⟨rfl, rfl⟩
  · obtain ⟨k, i, other, source, hk, ho, hr, hsrc, hlt, hrv⟩ := h.others j e hold hno
    have hne : k ≠ key := by
      rintro rfl
      obtain rfl := Option.some.inj (hl.stored.symm.trans ho)
      exact hl.not_reversed hr
    exact ⟨k, i, other, source, hk, by rw [hl.trade_at, if_neg hne, ho], hr, hl.keeps hsrc, hlt,
      hrv⟩
  · exact ⟨key, index, left, original, hl.indexed, by rw [hl.trade_at, if_pos rfl],
      hl.left_reversed, hl.keeps hl.posted, h.index_lt hl.indexed, hl.reverses⟩

theorem Positions.Leaves.once (hl : p.Leaves q key trade left index original reversal)
    (h : p.Posted) {i j k : ℕ} {source a b : LedgerEntry} (hi : q.ledgerEntries[i]? = some source)
    (hj : q.ledgerEntries[j]? = some a) (hk : q.ledgerEntries[k]? = some b)
    (hra : IsReversalOf source a) (hrb : IsReversalOf source b) : j = k := by
  rcases hl.entry_cases hj with hj' | ⟨rfl, rfl⟩
  · rcases hl.entry_cases hk with hk' | ⟨rfl, rfl⟩
    · exact h.once i j k source a b (hl.original_old h hi hj' hra) hj' hk' hra hrb
    · exact absurd (hl.original_eq h hi hrb ▸ hra) (hl.not_old h hj')
  · rcases hl.entry_cases hk with hk' | ⟨rfl, rfl⟩
    · exact absurd (hl.original_eq h hi hra ▸ hrb) (hl.not_old h hk')
    · rfl

theorem Positions.Posted.leave (h : p.Posted)
    (hl : p.Leaves q key trade left index original reversal) : q.Posted where
  nodup := hl.nodup h
  ids := hl.mem_ids h
  indexed k i hk := by
    rw [hl.index_same] at hk
    obtain ⟨other, e, ho, hcap, hi, hc⟩ := h.indexed k i hk
    rw [hl.trade_at]
    split_ifs with hkey
    · subst hkey
      obtain rfl := Option.some.inj (hl.stored.symm.trans ho)
      have hleft : left.state ≠ .captured := by
        rcases hl.left_reversed with hs | hs <;> simp [hs]
      exact ⟨left, e, rfl, hleft, hl.keeps hi, hc.trans hl.contents.symm⟩
    · exact ⟨other, e, ho, hcap, hl.keeps hi, hc⟩
  live k other ho hst := by
    rw [hl.trade_at] at ho
    rw [hl.index_same]
    split_ifs at ho with hkey
    · subst hkey
      exact ⟨index, hl.indexed⟩
    · exact h.live k other ho hst
  injective := hl.index_same ▸ h.injective
  others _ _ hj hno := hl.others h hj hno
  reversed k i other source hk ho hr hsrc := by
    rw [hl.index_same] at hk
    rw [hl.trade_at] at ho
    split_ifs at ho with hkey
    · subst hkey
      obtain rfl := Option.some.inj (hl.indexed.symm.trans hk)
      obtain rfl := Option.some.inj ((hl.keeps hl.posted).symm.trans hsrc)
      exact ⟨_, reversal, hl.last_entry, hl.reverses⟩
    · exact hl.reversal_kept h hk ho hr hsrc
  once _ _ _ _ _ _ hi hj hk hra hrb := hl.once h hi hj hk hra hrb

end Leave

/-- Every move keeps ledger, index and versions in agreement. -/
theorem Positions.Posted.move (h : p.Posted) (hm : p.Move q) : q.Posted := by
  cases hm with
  | @capture key trade hfresh hs =>
    have hnone := h.not_indexed key (by simp [hfresh])
    refine h.store key trade (by simp [hs]) ?_ rfl rfl rfl rfl
    intro i hi
    rw [hnone] at hi
    cases hi
  | @discard key trade ht hs =>
    have hnone := h.not_indexed key (by
      intro old ho
      rw [ht] at ho
      obtain rfl := Option.some.inj ho
      exact hs)
    refine h.store key { trade with state := .cancelled } (by simp) ?_ rfl rfl
      rfl rfl
    intro i hi
    rw [hnone] at hi
    cases hi
  | @enter key trade limits entry hold hs _ hent hids =>
    exact h.enter ⟨⟨rfl, rfl, rfl, hids⟩, hold, hs, hent, rfl⟩
  | @leave key trade left limits index original reversal ht hs hl hsame _ hidx horig _ hrev hids =>
    exact h.leave ⟨⟨rfl, rfl, rfl, hids⟩, ht, hs, hl, hsame, hidx, horig, hrev, rfl⟩
  | @settle key trade limits ht hs _ =>
    refine h.store key { trade with state := .settled }
      (fun _ => h.live key trade ht (Or.inl hs)) ?_ rfl rfl rfl rfl
    exact fun i _ => ⟨rfl, trade, ht, hs, rfl⟩

end Backbook

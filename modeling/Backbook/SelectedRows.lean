import Backbook.AllOrNothing
import Backbook.AmendRebook
import Backbook.BrowserCoherence
import Backbook.ConsoleActions
import Backbook.VisibleTraces

namespace Backbook

open Relation Browser
open VisibleTrace (Run)
open NewestRequest (Screen)

namespace Browser

structure Selection where
  selectedKey : Option Bytes
  amendOpen : Bool
  form : Option Trade
deriving DecidableEq, Repr

def Selection.initial : Selection := ⟨none, false, none⟩

def defaultTrade (trades : List Trade) : Option Trade :=
  (trades.reverse.find? fun trade => trade.state = .confirmed).or trades.head?

def selectionEffect (trades : List Trade) (selectedKey : Option Bytes) : Option Bytes :=
  if trades = [] then none
  else if trades.any fun trade => some (tradeKey trade) = selectedKey then selectedKey
  else match defaultTrade trades with
    | some trade => some (tradeKey trade)
    | none => selectedKey

def Selection.amended (selection : Selection) (trades : List Trade) : Option Trade :=
  if selection.amendOpen then
    (selectedTrade trades selection.selectedKey).filter fun trade => trade.state = .confirmed
  else none

/-- A form that stays mounted keeps its fields, whatever row it is given. -/
def Selection.render (selection : Selection) (trades : List Trade) : Selection :=
  { selection with form := (selection.amended trades).map fun row => selection.form.getD row }

/-- The effect runs behind a render, and what it sets is rendered. -/
def Selection.settle (selection : Selection) (trades : List Trade) : Selection :=
  { selection.render trades with
    selectedKey := selectionEffect trades selection.selectedKey }.render trades

structure Desk (S : Type) where
  console : Console S
  selection : Selection

def BackbookModel.trades (model : BackbookModel) : List Trade :=
  match model.snapshot with
  | some value => value.state.trades
  | none => []

variable {S : Type}

def Desk.opened (service : CommandService S) : Desk S := ⟨Console.opened service, .initial⟩

def Desk.trades (desk : Desk S) : List Trade := desk.console.model.trades

def Desk.selected (desk : Desk S) : Option Trade :=
  selectedTrade desk.trades desk.selection.selectedKey

def Desk.amended (desk : Desk S) : Option Trade := desk.selection.amended desk.trades

structure RowClick where
  row : Trade
  behind : Bool

/-- The dialog covers the rows, but the keyboard still reaches them. The amend button
also waits until no write is under way. A dialog is closed by hand or by a submission
that ends after it was taken away, so it is closed at any time. -/
inductive Desk.Step [JournalStore S] (isRealDay : Bytes → Bool) :
    Desk S → Option RowClick → Desk S → Prop
  | console {desk : Desk S} {next : Console S} (h : desk.console.Step isRealDay next) :
      Step isRealDay desk none ⟨next, desk.selection.settle next.model.trades⟩
  | select {desk : Desk S} {row : Trade} (h : row ∈ desk.trades) :
      Step isRealDay desk (some ⟨row, desk.selection.form.isSome⟩)
        ⟨desk.console, { desk.selection with
          selectedKey := some (tradeKey row) }.settle desk.trades⟩
  | openAmend {desk : Desk S} {row : Trade} (hl : desk.console.model.connection = .live)
      (h : desk.selected = some row) (hc : row.state = .confirmed) : Step isRealDay desk none
        ⟨desk.console, { desk.selection with amendOpen := true }.settle desk.trades⟩
  | closeAmend (desk : Desk S) : Step isRealDay desk none
      ⟨desk.console, { desk.selection with amendOpen := false }.settle desk.trades⟩

end Browser

def TradeState.rank : TradeState → ℕ
  | .captured => 0
  | .confirmed => 1
  | .superseded | .cancelled | .settled => 2

theorem TradeState.Moves.rank_lt {old new : TradeState} (h : old.Moves new) :
    old.rank < new.rank := by
  cases h <;> decide

theorem TradeState.rank_of_moves {old new : TradeState}
    (h : ReflTransGen TradeState.Moves old new) : new = old ∨ old.rank < new.rank := by
  induction h with
  | refl => exact Or.inl rfl
  | tail _ hmove ih =>
    have hlast := hmove.rank_lt
    right
    rcases ih with rfl | hlt
    · exact hlast
    · exact hlt.trans hlast

structure Browser.Trade.Evolves (old new : Browser.Trade) : Prop where
  moved : ReflTransGen TradeState.Moves old.state new.state
  kept : { new with state := old.state, supersededBy := old.supersededBy } = old
  unmoved : new.state = old.state → new = old

section Rows

variable {limits : LimitHierarchy} {state later : State} {row other third : Browser.Trade}
  {trades : List Browser.Trade} {selection : Selection}

theorem Browser.Trade.Evolves.refl (row : Browser.Trade) : row.Evolves row :=
  ⟨.refl, rfl, fun _ => rfl⟩

theorem Browser.Trade.Evolves.trans (h : row.Evolves other) (h' : other.Evolves third) :
    row.Evolves third := by
  have hback := congrArg (fun trade : Browser.Trade =>
    { trade with state := row.state, supersededBy := row.supersededBy }) h'.kept
  refine ⟨h.moved.trans h'.moved, hback.trans h.kept, ?_⟩
  -- The lifecycle has no way back, so a state that is met again was never left.
  intro hsame
  have hmid : other.state = row.state := by
    rcases TradeState.rank_of_moves h.moved with heq | hlt
    · exact heq
    · rcases TradeState.rank_of_moves h'.moved with heq | hlt'
      · exact heq.symm.trans hsame
      · rw [hsame] at hlt'
        exact absurd hlt' (lt_asymm hlt)
  rw [h'.unmoved (hsame.trans hmid.symm), h.unmoved hmid]

theorem Browser.Trade.Evolves.key (h : row.Evolves other) : tradeKey other = tradeKey row := by
  have hsame := congrArg tradeKey h.kept
  exact hsame

theorem Trade.Continues.evolves {old new : Trade} (h : old.Continues new) :
    old.view.Evolves new.view := by
  obtain ⟨hid, hversion, hbook, hcounterparty, hset, hterms, hsupersedes, hmoved, hlinked, _⟩ := h
  refine ⟨?_, ?_, ?_⟩
  · change ReflTransGen TradeState.Moves old.state new.state
    rcases hmoved with heq | hmove
    · rw [heq]
    · exact .single hmove
  · simp only [Trade.view, hid, hversion, hbook, hcounterparty, hset, hterms, hsupersedes]
  · intro hsame
    have hstate : new.state = old.state := hsame
    have hlink : new.supersededBy = old.supersededBy := by
      rcases hlinked with heq | ⟨hne, hsuperseded⟩
      · exact heq
      · exact absurd (hstate.symm.trans hsuperseded) hne
    simp only [Trade.view, hid, hversion, hbook, hcounterparty, hset, hterms, hsupersedes, hstate,
      hlink]

/-- A later state still shows every row. -/
theorem State.Reachable.rows_kept (hr : state.Reachable limits)
    (hrun : ReflTransGen State.Step state later) (hrow : row ∈ state.dataView.trades) :
    ∃ row' ∈ later.dataView.trades, row.Evolves row' := by
  induction hrun with
  | refl => exact ⟨row, hrow, .refl row⟩
  | @tail mid last hpath hstep ih =>
    obtain ⟨operation, happly⟩ := hstep
    obtain ⟨_, hmid, hevolves⟩ := ih
    obtain ⟨trade, hmem, rfl⟩ := State.mem_dataView.mp hmid
    have hs : mid.Coherent := State.Reachable.coherent (hr.trans hpath)
    have hlast : last.Coherent :=
      State.Reachable.coherent (hr.trans (hpath.tail ⟨operation, happly⟩))
    obtain ⟨trade', ht', hcontinues⟩ := (Operation.extends hs happly).trades trade.key trade
      ((State.mem_register hs.chain).mp hmem)
    exact ⟨trade'.view, State.mem_dataView.mpr ⟨trade', State.register_of_stored ht', rfl⟩,
      hevolves.trans hcontinues.evolves⟩

theorem mem_of_selectedTrade {selectedKey : Option Bytes}
    (h : selectedTrade trades selectedKey = some row) :
    row ∈ trades ∧ selectedKey = some (tradeKey row) := by
  have hkey := List.find?_some h
  exact ⟨List.mem_of_find?_eq_some h, (of_decide_eq_true hkey).symm⟩

theorem selectedTrade_iff (hu : UniqueRows trades) {selectedKey : Option Bytes} :
    selectedTrade trades selectedKey = some row ↔
      row ∈ trades ∧ selectedKey = some (tradeKey row) := by
  constructor
  · exact mem_of_selectedTrade
  · rintro ⟨hrow, rfl⟩
    have hsome : (selectedTrade trades (some (tradeKey row))).isSome := by
      rw [selectedTrade, List.find?_isSome]
      exact ⟨row, hrow, decide_eq_true rfl⟩
    obtain ⟨found, hfound⟩ := Option.isSome_iff_exists.mp hsome
    obtain ⟨hmem, hkey⟩ := mem_of_selectedTrade hfound
    rw [hfound, hu row hrow found hmem (Option.some.inj hkey)]

theorem selectionEffect_of_selected {selectedKey : Option Bytes}
    (h : selectedTrade trades selectedKey = some row) :
    selectionEffect trades selectedKey = selectedKey := by
  obtain ⟨hmem, hkey⟩ := mem_of_selectedTrade h
  have hany : trades.any (fun trade => some (tradeKey trade) = selectedKey) = true :=
    List.any_eq_true.mpr ⟨row, hmem, decide_eq_true hkey.symm⟩
  rw [selectionEffect, if_neg (List.ne_nil_of_mem hmem), if_pos hany]

/-- Without a selected row the last confirmed one is taken, or else the first one. -/
theorem selectionEffect_of_unselected {selectedKey : Option Bytes}
    (h : selectedTrade trades selectedKey = none) (hne : trades ≠ []) :
    ∃ row ∈ trades, defaultTrade trades = some row ∧
      selectionEffect trades selectedKey = some (tradeKey row) := by
  obtain ⟨first, rest, rfl⟩ := List.exists_cons_of_ne_nil hne
  have hany : ¬(first :: rest).any (fun trade => some (tradeKey trade) = selectedKey) = true := by
    intro hany
    obtain ⟨row, hrow, hkey⟩ := List.any_eq_true.mp hany
    exact List.find?_eq_none.mp h row hrow hkey
  rw [selectionEffect, if_neg hne, if_neg hany]
  cases hconfirmed : (first :: rest).reverse.find? fun trade => trade.state = .confirmed with
  | none =>
    have hdefault : defaultTrade (first :: rest) = some first := by
      rw [defaultTrade, hconfirmed]
      rfl
    rw [hdefault]
    exact ⟨first, List.mem_cons_self, rfl, rfl⟩
  | some row =>
    have hdefault : defaultTrade (first :: rest) = some row := by
      rw [defaultTrade, hconfirmed]
      rfl
    rw [hdefault]
    exact ⟨row, List.mem_reverse.mp (List.mem_of_find?_eq_some hconfirmed), rfl, rfl⟩

theorem Browser.Selection.amended_iff : selection.amended trades = some row ↔
    selection.amendOpen = true ∧ selectedTrade trades selection.selectedKey = some row ∧
      row.state = .confirmed := by
  unfold Selection.amended
  split_ifs with hopen
  · simp [hopen]
  · simp [hopen]

theorem Browser.Selection.render_render (selection : Selection) (trades : List Browser.Trade) :
    (selection.render trades).render trades = selection.render trades := by
  have hsame : (selection.render trades).amended trades = selection.amended trades := rfl
  rw [Selection.render, hsame]
  cases hamended : selection.amended trades with
  | none => simp [Selection.render, hamended]
  | some row => simp [Selection.render, hamended]

/-- A selected row stays selected, and there is nothing more to render. -/
theorem Browser.Selection.settle_of_selected
    (h : selectedTrade trades selection.selectedKey = some row) :
    selection.settle trades = selection.render trades := by
  have heffect : { selection.render trades with
      selectedKey := selectionEffect trades selection.selectedKey } = selection.render trades := by
    rw [selectionEffect_of_selected h]
    rfl
  rw [Selection.settle, heffect, Selection.render_render]

/-- A form is taken away with its row. -/
theorem Browser.Selection.settle_of_unselected
    (h : selectedTrade trades selection.selectedKey = none) : selection.settle trades =
      { selection with
        selectedKey := selectionEffect trades selection.selectedKey
        form := none }.render trades := by
  have hamended : selection.amended trades = none := by
    rw [Selection.amended, h]
    exact ite_self _
  have hfirst : selection.render trades = { selection with form := none } := by
    rw [Selection.render, hamended]
    rfl
  rw [Selection.settle, hfirst]

theorem Browser.Selection.settle_selected (hu : UniqueRows trades) (hne : trades ≠ []) :
    ∃ row, selectedTrade trades (selection.settle trades).selectedKey = some row := by
  change ∃ row, selectedTrade trades (selectionEffect trades selection.selectedKey) = some row
  cases h : selectedTrade trades selection.selectedKey with
  | none =>
    obtain ⟨row, hrow, _, heffect⟩ := selectionEffect_of_unselected h hne
    exact ⟨row, (selectedTrade_iff hu).mpr ⟨hrow, heffect⟩⟩
  | some row =>
    rw [selectionEffect_of_selected h]
    exact ⟨row, h⟩

/-- The effect runs once: what it leaves needs no further render. -/
theorem Browser.Selection.settle_settle (hu : UniqueRows trades) :
    (selection.settle trades).settle trades = selection.settle trades := by
  by_cases hne : trades = []
  · rw [hne]
    simp [Selection.settle, Selection.render, Selection.amended, selectionEffect, selectedTrade]
  · have hselected : ∃ row, selectedTrade trades (selection.settle trades).selectedKey =
        some row := Selection.settle_selected hu hne
    obtain ⟨row, hrow⟩ := hselected
    rw [Selection.settle_of_selected hrow]
    exact Selection.render_render _ _

theorem Browser.Selection.render_form {opened : Browser.Trade}
    (hkeep : ∀ filled row, selection.form = some filled → selection.amended trades = some row →
      row = filled)
    (h : (selection.render trades).form = some opened) :
    (selection.render trades).amended trades = some opened := by
  obtain ⟨row, hamended, hform⟩ := Option.map_eq_some_iff.mp h
  have hsame : row = opened := by
    cases hfilled : selection.form with
    | none =>
      rw [hfilled] at hform
      exact hform
    | some filled =>
      rw [hfilled] at hform
      have hopened : filled = opened := hform
      rw [hkeep filled row hfilled hamended, hopened]
  rw [← hsame]
  exact hamended

/-- A form that is mounted afresh shows its row. One that stays shows its row if the
row is still the one that it was filled from. -/
theorem Browser.Selection.settle_form {opened : Browser.Trade}
    (hkeep : ∀ filled row, selection.form = some filled → selection.amended trades = some row →
      row = filled)
    (h : (selection.settle trades).form = some opened) :
    (selection.settle trades).amended trades = some opened := by
  cases hselected : selectedTrade trades selection.selectedKey with
  | none =>
    rw [Selection.settle_of_unselected hselected] at h ⊢
    apply Selection.render_form _ h
    intro filled row hform _
    cases hform
  | some row =>
    rw [Selection.settle_of_selected hselected] at h ⊢
    exact Selection.render_form hkeep h

end Rows

section Desks

variable {S : Type} {isRealDay : Bytes → Bool} {definitions : List LimitDefinition}
  {limits : LimitHierarchy} {service : CommandService S} {console next : Console S}
  {desk later : Desk S} {row : Browser.Trade}

def Browser.Console.Chained (console : Console S) : Prop :=
  ∀ a ∈ console.published, ∀ b ∈ console.published,
    ReflTransGen State.Step a b ∨ ReflTransGen State.Step b a

structure Browser.Console.Orderly (limits : LimitHierarchy) (console : Console S) : Prop where
  screen : ∃ screen : Screen ℕ, screen.Orderly ∧ console.Tracks limits screen
  chained : console.Chained

theorem Browser.Console.Orderly.opened [JournalStore S]
    (hc : LimitHierarchy.create definitions = .ok limits)
    (hs : service.snapshot.Reachable limits) : (Console.opened service).Orderly limits := by
  have hrun : ReflTransGen (Console.Step fun _ => true) (Console.opened service)
      (Console.opened service) := .refl
  refine ⟨Console.run_tracks hc hs hrun, ?_⟩
  intro a ha b hb
  rw [List.mem_singleton.mp ha, List.mem_singleton.mp hb]
  exact Or.inl .refl

/-- What is shown are the rows of a published snapshot. -/
theorem Browser.Console.Orderly.shown (h : console.Orderly limits)
    (hrow : row ∈ console.model.trades) : ∃ state ∈ console.published,
      state.Reachable limits ∧ console.model.trades = state.dataView.trades := by
  obtain ⟨_, _, htracks⟩ := h.screen
  unfold BackbookModel.trades at hrow ⊢
  cases hsnapshot : console.model.snapshot with
  | none =>
    rw [hsnapshot] at hrow
    cases hrow
  | some value =>
    obtain ⟨state, hpublished, _, fingerprint, _, rfl⟩ := htracks.view value hsnapshot
    exact ⟨state, hpublished, htracks.reachable state hpublished, rfl⟩

theorem Browser.Console.Orderly.unique (h : console.Orderly limits) :
    UniqueRows console.model.trades := by
  intro row hrow
  obtain ⟨state, _, hr, htrades⟩ := h.shown hrow
  rw [htrades] at hrow ⊢
  exact hr.coherent.uniqueRows row hrow

theorem Browser.Console.Orderly.reachable (h : console.Orderly limits) :
    console.service.snapshot.Reachable limits := by
  obtain ⟨_, _, htracks⟩ := h.screen
  exact htracks.reachable _ htracks.current

section Steps

variable [JournalStore S]

theorem Browser.Console.Step.published_cases (hstep : console.Step isRealDay next) :
    next.published = console.published ∨
      next.published = next.service.snapshot :: console.published := by
  cases hstep with
  | commit => exact Or.inr rfl
  | start => exact Or.inl rfl
  | read => exact Or.inl rfl
  | @resume sequence refresh loaded _ _ =>
    left
    unfold Console.resume
    cases refresh.retry loaded with
    | none => rfl
    | some again => rfl

theorem Browser.Console.Orderly.step (hc : LimitHierarchy.create definitions = .ok limits)
    (h : console.Orderly limits) (hstep : console.Step isRealDay next) :
    next.Orderly limits ∧
      ReflTransGen State.Step console.service.snapshot next.service.snapshot ∧
      ∀ row ∈ console.model.trades, ∃ row' ∈ next.model.trades, row.Evolves row' := by
  obtain ⟨screen, horderly, htracks⟩ := h.screen
  obtain ⟨screen', hsteps, htracks'⟩ := htracks.step hc hstep
  have hsub : console.published ⊆ next.published := by
    rcases hstep.published_cases with heq | heq
    · rw [heq]
      exact List.Subset.refl _
    · rw [heq]
      exact List.subset_cons_self _ _
  have hchained : next.Chained := by
    intro a ha b hb
    rcases hstep.published_cases with heq | heq
    · rw [heq] at ha hb
      exact h.chained a ha b hb
    · -- Every published snapshot leads to the new one.
      have hleads := htracks'.leads
      rw [heq] at ha hb
      rcases List.mem_cons.mp ha with rfl | ha
      · exact Or.inr (hleads b (heq ▸ hb))
      · rcases List.mem_cons.mp hb with rfl | hb
        · exact Or.inl (hleads a (hsub ha))
        · exact h.chained a ha b hb
  have hnext : next.Orderly limits := ⟨⟨screen', horderly.run hsteps, htracks'⟩, hchained⟩
  refine ⟨hnext, htracks'.leads _ (hsub htracks.current), ?_⟩
  intro row hrow
  cases hsnapshot : console.model.snapshot with
  | none =>
    rw [BackbookModel.trades, hsnapshot] at hrow
    cases hrow
  | some value =>
    have hshown : screen.shown = some (shownVersion value) := by
      rw [htracks.shown, hsnapshot]
      rfl
    obtain ⟨version, hversion, hle⟩ := horderly.shown_le_run hsteps hshown
    rw [htracks'.shown] at hversion
    obtain ⟨value', hsnapshot', rfl⟩ := Option.map_eq_some_iff.mp hversion
    obtain ⟨state, hp, _, fingerprint, _, rfl⟩ := htracks.view value hsnapshot
    obtain ⟨state', hp', _, fingerprint', _, rfl⟩ := htracks'.view value' hsnapshot'
    have hr := htracks.reachable state hp
    have hr' := htracks'.reachable state' hp'
    -- The later one of the two is shown later.
    have hrun : ReflTransGen State.Step state state' := by
      rcases hchained state (hsub hp) state' hp' with hrun | hback
      · exact hrun
      · rw [shownVersion_dashboard, shownVersion_dashboard] at hle
        have hsame : state'.version = state.version :=
          UInt64.toNat_inj.mp (le_antisymm (hr'.version_le hback) hle)
        rw [hr'.eq_of_version_eq hback hsame]
    have hstate : row ∈ state.dataView.trades := by
      rw [BackbookModel.trades, hsnapshot] at hrow
      exact hrow
    rw [BackbookModel.trades, hsnapshot']
    exact hr.rows_kept hrun hstate

structure Browser.Desk.Orderly (limits : LimitHierarchy) (desk : Desk S) : Prop where
  console : desk.console.Orderly limits
  settled : desk.selection.settle desk.trades = desk.selection

def Browser.Desk.Faithful (desk : Desk S) : Prop :=
  ∀ opened, desk.selection.form = some opened → desk.amended = some opened

namespace Browser.Desk

variable {event : Option RowClick} {after : Desk S}

theorem Orderly.opened (hc : LimitHierarchy.create definitions = .ok limits)
    (hs : service.snapshot.Reachable limits) : (Desk.opened service).Orderly limits :=
  ⟨Console.Orderly.opened hc hs, rfl⟩

theorem Orderly.step (hc : LimitHierarchy.create definitions = .ok limits)
    (h : desk.Orderly limits) (hstep : Desk.Step isRealDay desk event after) :
    after.Orderly limits := by
  cases hstep with
  | console hconsole =>
    have hnext := (h.console.step hc hconsole).1
    exact ⟨hnext, Selection.settle_settle hnext.unique⟩
  | select => exact ⟨h.console, Selection.settle_settle h.console.unique⟩
  | openAmend => exact ⟨h.console, Selection.settle_settle h.console.unique⟩
  | closeAmend => exact ⟨h.console, Selection.settle_settle h.console.unique⟩

theorem Step.leads (hc : LimitHierarchy.create definitions = .ok limits)
    (h : desk.Orderly limits) (hstep : Desk.Step isRealDay desk event after) :
    ReflTransGen State.Step desk.console.service.snapshot after.console.service.snapshot := by
  cases hstep with
  | console hconsole => exact (h.console.step hc hconsole).2.1
  | select => exact .refl
  | openAmend => exact .refl
  | closeAmend => exact .refl

omit [JournalStore S] in
/-- There is a selected row as soon as there are rows. -/
theorem Orderly.selected (h : desk.Orderly limits) :
    desk.trades = [] ∧ desk.selection.selectedKey = none ∨ ∃ row, desk.selected = some row := by
  by_cases hne : desk.trades = []
  · left
    have hkey : (desk.selection.settle desk.trades).selectedKey = none := if_pos hne
    rw [h.settled] at hkey
    exact ⟨hne, hkey⟩
  · right
    have hrow : ∃ row, selectedTrade desk.trades
        (desk.selection.settle desk.trades).selectedKey = some row :=
      Selection.settle_selected h.console.unique hne
    rw [h.settled] at hrow
    exact hrow

/-- A refresh brings the selected row further on its way. -/
theorem Orderly.row_refreshed (hc : LimitHierarchy.create definitions = .ok limits)
    (h : desk.Orderly limits) (hstep : desk.console.Step isRealDay next)
    (hselected : desk.selected = some row) :
    ∃ row', selectedTrade next.model.trades desk.selection.selectedKey = some row' ∧
      row.Evolves row' := by
  obtain ⟨hrow, hkey⟩ := mem_of_selectedTrade hselected
  obtain ⟨hnext, _, hkept⟩ := h.console.step hc hstep
  obtain ⟨row', hrow', hevolves⟩ := hkept row hrow
  refine ⟨row', (selectedTrade_iff hnext.unique).mpr ⟨hrow', ?_⟩, hevolves⟩
  rw [hkey, hevolves.key]

theorem Faithful.step (hc : LimitHierarchy.create definitions = .ok limits)
    (h : desk.Orderly limits) (hf : desk.Faithful) (hstep : Desk.Step isRealDay desk event after)
    (hclick : ∀ click ∈ event, click.behind = false) : after.Faithful := by
  cases hstep with
  | console hconsole =>
    intro opened
    apply Selection.settle_form
    intro filled row hform hamended
    obtain ⟨_, hselected, hconfirmed⟩ := Selection.amended_iff.mp (hf filled hform)
    obtain ⟨row', hrow', hevolves⟩ := h.row_refreshed hc hconsole hselected
    obtain ⟨_, hrow, hstill⟩ := Selection.amended_iff.mp hamended
    obtain rfl := Option.some.inj (hrow'.symm.trans hrow)
    -- A confirmed row that is still confirmed has not moved.
    exact hevolves.unmoved (hstill.trans hconfirmed.symm)
  | select =>
    intro opened
    apply Selection.settle_form
    intro filled row hform _
    have hbehind : desk.selection.form.isSome = false := hclick _ rfl
    have hsome : desk.selection.form = some filled := hform
    rw [hsome] at hbehind
    cases hbehind
  | openAmend =>
    intro opened
    apply Selection.settle_form
    intro filled row hform hamended
    obtain ⟨_, hselected, _⟩ := Selection.amended_iff.mp (hf filled hform)
    obtain ⟨_, hrow, _⟩ := Selection.amended_iff.mp hamended
    exact Option.some.inj (hrow.symm.trans hselected)
  | closeAmend =>
    intro opened
    apply Selection.settle_form
    intro filled row _ hamended
    obtain ⟨hopen, _⟩ := Selection.amended_iff.mp hamended
    cases hopen

variable {trace : List RowClick}

theorem Orderly.run (hc : LimitHierarchy.create definitions = .ok limits)
    (h : desk.Orderly limits) (hrun : Run (Desk.Step isRealDay) desk trace later) :
    later.Orderly limits ∧
      ReflTransGen State.Step desk.console.service.snapshot later.console.service.snapshot := by
  induction hrun with
  | nil => exact ⟨h, .refl⟩
  | snoc _ hstep ih =>
    obtain ⟨hmid, hpath⟩ := ih
    exact ⟨hmid.step hc hstep, hpath.trans (hstep.leads hc hmid)⟩

end Browser.Desk

end Steps

end Desks

section Amending

variable {state next : State} {row : Browser.Trade}

end Amending

end Backbook

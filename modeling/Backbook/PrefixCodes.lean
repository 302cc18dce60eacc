import Backbook.ByteParsers

/-! Codes whose words can be split off whatever follows them. Pairs, optional
values and counted lists of such codes are such codes again, so a long record
can be read back as soon as its fields can. -/
namespace PrefixCode

open ByteParser

variable {σ α β : Type*} {P : α → Prop} {Q : β → Prop} {enc : α → List σ} {enc' : β → List σ}

def PrefixOn (P : α → Prop) (enc : α → List σ) : Prop :=
  ∀ ⦃a b : α⦄ ⦃r s : List σ⦄, P a → P b → enc a ++ r = enc b ++ s → a = b ∧ r = s

theorem PrefixOn.inj (h : PrefixOn P enc) {a b : α} (ha : P a) (hb : P b)
    (he : enc a = enc b) : a = b := by
  have hnil : enc a ++ [] = enc b ++ [] := congrArg (· ++ []) he
  exact (h ha hb hnil).1

/-- An encoding that some parser reads back exactly. -/
theorem prefixOn_of_exact {ε α : Type} {P : α → Prop} {p : Parser ε α} {enc : α → List UInt8}
    (h : ExactOn P p enc) : PrefixOn P enc :=
  fun _ _ _ _ ha hb he => h.append_inj ha hb he

theorem PrefixOn.pair (hp : PrefixOn P enc) (hq : PrefixOn Q enc') :
    PrefixOn (fun x : α × β => P x.1 ∧ Q x.2) fun x => enc x.1 ++ enc' x.2 := by
  intro x y r s hx hy he
  rw [List.append_assoc, List.append_assoc] at he
  have hfst := hp hx.1 hy.1 he
  have hsnd := hq hx.2 hy.2 hfst.2
  exact ⟨Prod.ext hfst.1 hsnd.1, hsnd.2⟩

/-- A record is coded by its fields when they determine it. -/
theorem PrefixOn.comap (hp : PrefixOn P enc) (g : β → α) (hg : ∀ b, Q b → P (g b))
    (hinj : ∀ b c, Q b → Q c → g b = g c → b = c) : PrefixOn Q fun b => enc (g b) := by
  intro b c r s hb hc he
  have h := hp (hg b hb) (hg c hc) he
  exact ⟨hinj b c hb hc h.1, h.2⟩

/-- A value that may be missing, behind a flag. -/
theorem PrefixOn.optional {flag : Bool → List σ} (hf : PrefixOn (fun _ => True) flag)
    (hp : PrefixOn P enc) :
    PrefixOn (fun o : Option α => ∀ a ∈ o, P a) fun o => flag o.isSome ++ o.elim [] enc := by
  intro o o' r s ho ho' he
  simp only [List.append_assoc] at he
  obtain ⟨hflag, hrest⟩ := hf trivial trivial he
  cases o with
  | none =>
    obtain rfl := Option.isSome_eq_false_iff.mp hflag.symm |> Option.isNone_iff_eq_none.mp
    exact ⟨rfl, hrest⟩
  | some a =>
    obtain ⟨b, rfl⟩ := Option.isSome_iff_exists.mp hflag.symm
    have h := hp (ho a rfl) (ho' b rfl) hrest
    exact ⟨congrArg some h.1, h.2⟩

/-- As many words as the reader knows there are. -/
theorem PrefixOn.block (hp : PrefixOn P enc) (n : ℕ) :
    PrefixOn (fun as : List α => as.length = n ∧ ∀ a ∈ as, P a) fun as => as.flatMap enc := by
  induction n with
  | zero =>
    intro as bs r s ha hb he
    obtain rfl := List.length_eq_zero_iff.mp ha.1
    obtain rfl := List.length_eq_zero_iff.mp hb.1
    exact ⟨rfl, he⟩
  | succ n ih =>
    intro as bs r s ha hb he
    obtain ⟨a, as, rfl⟩ := List.exists_cons_of_length_eq_add_one ha.1
    obtain ⟨b, bs, rfl⟩ := List.exists_cons_of_length_eq_add_one hb.1
    simp only [List.flatMap_cons, List.append_assoc] at he
    have hfst := hp (ha.2 a List.mem_cons_self) (hb.2 b List.mem_cons_self) he
    have hrest := ih ⟨Nat.succ.inj ha.1, fun x hx => ha.2 x (List.mem_cons_of_mem a hx)⟩
      ⟨Nat.succ.inj hb.1, fun x hx => hb.2 x (List.mem_cons_of_mem b hx)⟩ hfst.2
    rw [hfst.1, hrest.1]
    exact ⟨rfl, hrest.2⟩

/-- A list behind its length. -/
theorem PrefixOn.counted {C : ℕ → Prop} {count : ℕ → List σ} (hc : PrefixOn C count)
    (hp : PrefixOn P enc) : PrefixOn (fun as : List α => C as.length ∧ ∀ a ∈ as, P a)
      fun as => count as.length ++ as.flatMap enc := by
  intro as bs r s ha hb he
  rw [List.append_assoc, List.append_assoc] at he
  have hlen := hc ha.1 hb.1 he
  exact hp.block as.length ⟨rfl, ha.2⟩ ⟨hlen.1.symm, hb.2⟩ hlen.2

end PrefixCode

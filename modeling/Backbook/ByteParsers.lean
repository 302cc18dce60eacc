import Backbook.OutcomeRules

/-! Byte parsers and the encoders they invert. A parser is exact for an encoder
when it accepts precisely the encodings and leaves precisely what follows, so
one equivalence carries the round trip, canonicity and unique decodability. -/
namespace ByteParser

structure Input where
  rest : List UInt8
  offset : ℕ
deriving DecidableEq

def Input.ofBytes (bytes : List UInt8) : Input := ⟨bytes, 0⟩

abbrev Parser (ε α : Type) := StateT Input (Except ε) α

section Primitives

variable {ε α : Type}

def position : Parser ε ℕ := fun i => .ok (i.offset, i)

/-- Take the next `n` bytes; `short` builds the error from the current offset. -/
def takeBytes (n : ℕ) (short : ℕ → ε) : Parser ε (List UInt8) := fun i =>
  if i.rest.length < n then .error (short i.offset)
  else .ok (i.rest.take n, ⟨i.rest.drop n, i.offset + n⟩)

def attempt (x : Except ε α) : Parser ε α := fun i => x.map (·, i)

end Primitives

def leBytes : ℕ → ℕ → List UInt8
  | 0, _ => []
  | n + 1, v => UInt8.ofNat v :: leBytes n (v / 256)

def leValue (bytes : List UInt8) : ℕ := Nat.ofDigits 256 (bytes.map UInt8.toNat)

@[simp] theorem leBytes_length (n v : ℕ) : (leBytes n v).length = n := by
  induction n generalizing v with
  | zero => rfl
  | succ n ih => simp [leBytes, ih]

theorem leValue_lt (bytes : List UInt8) : leValue bytes < 256 ^ bytes.length := by
  have h := Nat.ofDigits_lt_base_pow_length (b := 256) (l := bytes.map UInt8.toNat) (by decide) (by
    intro x hx
    obtain ⟨b, _, rfl⟩ := List.mem_map.mp hx
    exact b.toNat_lt)
  simpa [leValue] using h

theorem leValue_leBytes (n v : ℕ) (hv : v < 256 ^ n) : leValue (leBytes n v) = v := by
  induction n generalizing v with
  | zero =>
    have : v = 0 := by simpa using hv
    simp [leBytes, leValue, this]
  | succ n ih =>
    -- The first byte is the remainder, the others denote the quotient.
    have hq : v / 256 < 256 ^ n := Nat.div_lt_of_lt_mul (by rw [pow_succ] at hv; omega)
    have hh := ih (v / 256) hq
    simp only [leValue] at hh
    simp only [leBytes, leValue, List.map_cons, Nat.ofDigits_cons, hh]
    rw [UInt8.toNat_ofNat']
    omega

theorem leBytes_leValue (bytes : List UInt8) : leBytes bytes.length (leValue bytes) = bytes := by
  induction bytes with
  | nil => rfl
  | cons b bytes ih =>
    have hb : b.toNat < 256 := b.toNat_lt
    have hv : leValue (b :: bytes) = b.toNat + 256 * leValue bytes := by
      simp [leValue, Nat.ofDigits_cons]
    have hq : (b.toNat + 256 * leValue bytes) / 256 = leValue bytes := by omega
    have hr : UInt8.ofNat (b.toNat + 256 * leValue bytes) = b := by
      apply UInt8.toNat_inj.mp
      rw [UInt8.toNat_ofNat']
      omega
    rw [List.length_cons, leBytes, hv, hq, hr, ih]

def Reads (i : Input) (bytes : List UInt8) (j : Input) : Prop :=
  i.rest = bytes ++ j.rest ∧ j.offset = i.offset + bytes.length

@[simp] theorem reads_nil {i j : Input} : Reads i [] j ↔ i = j := by
  rcases i with ⟨r, o⟩
  rcases j with ⟨r', o'⟩
  simp [Reads, eq_comm]

theorem reads_append {i k : Input} {a b : List UInt8} :
    Reads i (a ++ b) k ↔ ∃ j, Reads i a j ∧ Reads j b k := by
  constructor
  · rintro ⟨hr, ho⟩
    refine ⟨⟨b ++ k.rest, i.offset + a.length⟩, ⟨by simpa using hr, rfl⟩, rfl, ?_⟩
    change k.offset = i.offset + a.length + b.length
    rw [ho, List.length_append, Nat.add_assoc]
  · rintro ⟨j, ⟨hr, ho⟩, hr', ho'⟩
    exact ⟨by rw [hr, hr', List.append_assoc], by rw [ho', ho, List.length_append]; omega⟩

section Rules

variable {ε α β : Type}

theorem bind_ok_iff {p : Parser ε α} {f : α → Parser ε β} {i k : Input} {b : β} :
    (p >>= f) i = .ok (b, k) ↔ ∃ a j, p i = .ok (a, j) ∧ f a j = .ok (b, k) := by
  change (p i >>= fun x => f x.1 x.2) = _ ↔ _
  simp

theorem pure_ok_iff {i j : Input} {a b : α} :
    (pure a : Parser ε α) i = .ok (b, j) ↔ a = b ∧ i = j := by
  change Except.ok (a, i) = _ ↔ _
  simp

theorem throw_ne_ok {i : Input} {e : ε} {x : α × Input} :
    (throw e : Parser ε α) i ≠ .ok x := by
  change Except.error e ≠ _
  exact nofun

theorem position_ok_iff {i j : Input} {n : ℕ} :
    (position : Parser ε ℕ) i = .ok (n, j) ↔ n = i.offset ∧ i = j := by
  simp [position, eq_comm]

theorem attempt_ok_iff {x : Except ε α} {i j : Input} {a : α} :
    attempt x i = .ok (a, j) ↔ x = .ok a ∧ i = j := by
  simp [attempt]

theorem takeBytes_ok_iff {n : ℕ} {short : ℕ → ε} {i j : Input} {bytes : List UInt8} :
    takeBytes n short i = .ok (bytes, j) ↔ bytes.length = n ∧ Reads i bytes j := by
  rcases i with ⟨r, o⟩
  rcases j with ⟨r', o'⟩
  unfold takeBytes Reads
  split_ifs with hn
  · refine ⟨nofun, ?_⟩
    rintro ⟨rfl, hr, _⟩
    simp only at hr hn
    rw [hr, List.length_append] at hn
    omega
  · simp only [Except.ok.injEq, Prod.mk.injEq, Input.mk.injEq]
    constructor
    · rintro ⟨rfl, rfl, rfl⟩
      have hl : (r.take n).length = n := by
        simp only [List.length_take]
        simp only at hn
        omega
      exact ⟨hl, (List.take_append_drop n r).symm, by rw [hl]⟩
    · rintro ⟨rfl, rfl, rfl⟩
      simp

/-- Among the values of `P`, a parser accepts exactly the encodings, and it
consumes exactly those bytes. It accepts no encoding of another value. -/
def ExactOn (P : α → Prop) (p : Parser ε α) (enc : α → List UInt8) : Prop :=
  ∀ i a j, p i = .ok (a, j) ↔ P a ∧ Reads i (enc a) j

abbrev Exact (p : Parser ε α) (enc : α → List UInt8) : Prop := ExactOn (fun _ => True) p enc

variable {P : α → Prop} {R : β → Prop}

/-- An exact parser reads an encoding back, whatever follows it. -/
theorem ExactOn.decode_append {p : Parser ε α} {enc : α → List UInt8} (hp : ExactOn P p enc)
    {a : α} (ha : P a) (r : List UInt8) (o : ℕ) :
    p ⟨enc a ++ r, o⟩ = .ok (a, ⟨r, o + (enc a).length⟩) :=
  (hp _ _ _).mpr ⟨ha, rfl, rfl⟩

/-- Encodings with an exact parser are uniquely decodable in any context. -/
theorem ExactOn.append_inj {p : Parser ε α} {enc : α → List UInt8} (hp : ExactOn P p enc)
    {a b : α} (ha : P a) (hb : P b) {r s : List UInt8} (h : enc a ++ r = enc b ++ s) :
    a = b ∧ r = s := by
  have hda := hp.decode_append ha r 0
  rw [h, hp.decode_append hb s 0] at hda
  simp only [Except.ok.injEq, Prod.mk.injEq, Input.mk.injEq] at hda
  exact ⟨hda.1.symm, hda.2.1.symm⟩

/-- Reading one field, and then what is left of the values with that field. -/
theorem ExactOn.field {p : Parser ε α} {enc : α → List UInt8} (hp : ExactOn P p enc) (g : β → α)
    (hg : ∀ b, R b → P (g b)) {f : α → Parser ε β} {rest : β → List UInt8}
    (hf : ∀ a, P a → ExactOn (fun b => R b ∧ g b = a) (f a) rest) :
    ExactOn R (p >>= f) fun b => enc (g b) ++ rest b := by
  intro i b k
  rw [ByteParser.bind_ok_iff]
  constructor
  · rintro ⟨a, j, ha, hb⟩
    obtain ⟨hPa, hra⟩ := (hp _ _ _).mp ha
    obtain ⟨⟨hR, rfl⟩, hrb⟩ := (hf a hPa _ _ _).mp hb
    exact ⟨hR, reads_append.mpr ⟨j, hra, hrb⟩⟩
  · rintro ⟨hR, hr⟩
    obtain ⟨j, hra, hrb⟩ := reads_append.mp hr
    have hPa := hg b hR
    exact ⟨g b, j, (hp _ _ _).mpr ⟨hPa, hra⟩, (hf _ hPa _ _ _).mpr ⟨⟨hR, rfl⟩, hrb⟩⟩

/-- The last field: the encoding ends with it. -/
theorem ExactOn.lastField {p : Parser ε α} {enc : α → List UInt8} (hp : ExactOn P p enc)
    (g : β → α) (hg : ∀ b, R b → P (g b)) {f : α → β}
    (hf : ∀ a b, P a → (R b ∧ g b = a ↔ b = f a)) :
    ExactOn R (do let a ← p; pure (f a)) fun b => enc (g b) := by
  intro i b k
  rw [ByteParser.bind_ok_iff]
  constructor
  · rintro ⟨a, j, ha, hb⟩
    obtain ⟨hPa, hra⟩ := (hp _ _ _).mp ha
    obtain ⟨rfl, rfl⟩ := ByteParser.pure_ok_iff.mp hb
    obtain ⟨hR, hga⟩ := (hf a _ hPa).mpr rfl
    refine ⟨hR, ?_⟩
    simp only [hga]
    exact hra
  · rintro ⟨hR, hr⟩
    have hPa := hg b hR
    exact ⟨g b, k, (hp _ _ _).mpr ⟨hPa, hr⟩,
      ByteParser.pure_ok_iff.mpr ⟨((hf _ b hPa).mp ⟨hR, rfl⟩).symm, rfl⟩⟩

/-- A field that is checked, and so turned into the value it stands for. -/
theorem ExactOn.decoded {p : Parser ε α} {enc : α → List UInt8} (hp : ExactOn P p enc)
    (g : β → α) (hg : ∀ b, R b → P (g b)) {f : α → Except ε β}
    (hf : ∀ a b, P a → (f a = .ok b ↔ R b ∧ g b = a)) :
    ExactOn R (do let a ← p; attempt (f a)) fun b => enc (g b) := by
  intro i b k
  rw [ByteParser.bind_ok_iff]
  constructor
  · rintro ⟨a, j, ha, hb⟩
    obtain ⟨hPa, hra⟩ := (hp _ _ _).mp ha
    obtain ⟨hfa, rfl⟩ := attempt_ok_iff.mp hb
    obtain ⟨hR, rfl⟩ := (hf a b hPa).mp hfa
    exact ⟨hR, hra⟩
  · rintro ⟨hR, hr⟩
    have hPa := hg b hR
    have hfa : f (g b) = .ok b := (hf _ b hPa).mpr ⟨hR, rfl⟩
    exact ⟨g b, k, (hp _ _ _).mpr ⟨hPa, hr⟩, attempt_ok_iff.mpr ⟨hfa, rfl⟩⟩

/-- One alternative of a sum: its values, tagged. -/
theorem ExactOn.variant {p : Parser ε α} {enc : α → List UInt8} (hp : ExactOn P p enc)
    (f : α → β) {rest : β → List UInt8} (hf : ∀ b, R b ↔ ∃ a, P a ∧ f a = b)
    (he : ∀ a, P a → rest (f a) = enc a) : ExactOn R (do let a ← p; pure (f a)) rest := by
  intro i b k
  rw [ByteParser.bind_ok_iff]
  constructor
  · rintro ⟨a, j, ha, hb⟩
    obtain ⟨hPa, hra⟩ := (hp _ _ _).mp ha
    obtain ⟨rfl, rfl⟩ := ByteParser.pure_ok_iff.mp hb
    exact ⟨(hf _).mpr ⟨a, hPa, rfl⟩, (he a hPa).symm ▸ hra⟩
  · rintro ⟨hR, hr⟩
    obtain ⟨a, hPa, rfl⟩ := (hf b).mp hR
    rw [he a hPa] at hr
    exact ⟨a, k, (hp _ _ _).mpr ⟨hPa, hr⟩, ByteParser.pure_ok_iff.mpr ⟨rfl, rfl⟩⟩

/-- A refusal is exact where there is nothing to accept. -/
theorem ExactOn.refuse {e : ε} {enc : β → List UInt8} (hR : ∀ b, ¬R b) :
    ExactOn R (throw e : Parser ε β) enc := by
  intro i b k
  exact ⟨fun h => (throw_ne_ok h).elim, fun h => (hR b h.1).elim⟩

/-- A decision that reads no byte. -/
theorem ExactOn.decide {x : Except ε β} (hx : ∀ b, x = .ok b ↔ R b) :
    ExactOn R (attempt x) fun _ => [] := by
  intro i b k
  rw [attempt_ok_iff, hx, reads_nil]

/-- Noting the position changes nothing but errors. -/
theorem ExactOn.at_position {f : ℕ → Parser ε β} {enc : β → List UInt8}
    (hf : ∀ n, ExactOn R (f n) enc) : ExactOn R (position >>= f) enc := by
  intro i b k
  rw [ByteParser.bind_ok_iff]
  constructor
  · rintro ⟨n, j, hn, hb⟩
    obtain ⟨_, rfl⟩ := position_ok_iff.mp hn
    exact (hf n _ _ _).mp hb
  · intro h
    exact ⟨i.offset, i, position_ok_iff.mpr ⟨rfl, rfl⟩, (hf _ _ _ _).mpr h⟩

theorem ExactOn.congr {p : Parser ε α} {enc enc' : α → List UInt8} {Q : α → Prop}
    (hp : ExactOn P p enc) (hPQ : ∀ a, P a ↔ Q a) (he : ∀ a, P a → enc a = enc' a) :
    ExactOn Q p enc' := by
  intro i a j
  rw [hp, ← hPQ]
  constructor
  · rintro ⟨ha, hr⟩
    exact ⟨ha, he a ha ▸ hr⟩
  · rintro ⟨ha, hr⟩
    exact ⟨ha, (he a ha).symm ▸ hr⟩

/-- A parser may end with a decision, which adds nothing to the encoding. -/
theorem ExactOn.of_append_nil {p : Parser ε α} {enc : α → List UInt8}
    (hp : ExactOn P p fun a => enc a ++ []) : ExactOn P p enc :=
  hp.congr (fun _ => Iff.rfl) fun _ _ => List.append_nil _

def many (p : Parser ε α) : ℕ → Parser ε (List α)
  | 0 => pure []
  | n + 1 => do
    let a ← p
    let as ← many p n
    pure (a :: as)

/-- A counted repetition is exact when one repetition is. -/
theorem ExactOn.many {p : Parser ε α} {enc : α → List UInt8} (hp : ExactOn P p enc) (n : ℕ) :
    ExactOn (fun as => as.length = n ∧ ∀ a ∈ as, P a) (many p n)
      fun as => (as.map enc).flatten := by
  induction n with
  | zero =>
    intro i as k
    rw [ByteParser.many, ByteParser.pure_ok_iff]
    constructor
    · rintro ⟨rfl, rfl⟩
      simp
    · rintro ⟨⟨hlen, _⟩, hr⟩
      obtain rfl := List.length_eq_zero_iff.mp hlen
      exact ⟨rfl, by simpa using hr⟩
  | succ n ih =>
    intro i as k
    simp only [ByteParser.many, ByteParser.bind_ok_iff, ByteParser.pure_ok_iff]
    constructor
    · rintro ⟨a, j, ha, bs, l, hbs, rfl, rfl⟩
      obtain ⟨hPa, hra⟩ := (hp _ _ _).mp ha
      obtain ⟨⟨hlen, hall⟩, hrb⟩ := (ih _ _ _).mp hbs
      refine ⟨⟨by simp [hlen], by simpa using ⟨hPa, hall⟩⟩, ?_⟩
      rw [List.map_cons, List.flatten_cons]
      exact reads_append.mpr ⟨j, hra, hrb⟩
    · rintro ⟨⟨hlen, hall⟩, hr⟩
      cases as with
      | nil => simp at hlen
      | cons a bs =>
        rw [List.map_cons, List.flatten_cons] at hr
        obtain ⟨j, hra, hrb⟩ := reads_append.mp hr
        have hPa : P a := hall a List.mem_cons_self
        have hbs : bs.length = n ∧ ∀ b ∈ bs, P b :=
          ⟨by simpa using hlen, fun b hb => hall b (List.mem_cons_of_mem _ hb)⟩
        exact ⟨a, j, (hp _ _ _).mpr ⟨hPa, hra⟩, bs, k, (ih _ _ _).mpr ⟨hbs, hrb⟩, rfl, rfl⟩

/-- A block of known length. -/
theorem exact_takeBytes (n : ℕ) (short : ℕ → ε) :
    ExactOn (fun bytes => bytes.length = n) (takeBytes n short) id :=
  fun _ _ _ => takeBytes_ok_iff

def littleEndian (n : ℕ) (short : ℕ → ε) : Parser ε ℕ := do
  let bytes ← takeBytes n short
  pure (leValue bytes)

theorem littleEndian_ok_iff {n : ℕ} {short : ℕ → ε} {i j : Input} {v : ℕ} :
    littleEndian n short i = .ok (v, j) ↔ v < 256 ^ n ∧ Reads i (leBytes n v) j := by
  simp only [littleEndian, ByteParser.bind_ok_iff, takeBytes_ok_iff, ByteParser.pure_ok_iff]
  constructor
  · rintro ⟨bytes, j', ⟨rfl, hr⟩, rfl, rfl⟩
    exact ⟨leValue_lt bytes, by rwa [leBytes_leValue]⟩
  · rintro ⟨hv, hr⟩
    exact ⟨leBytes n v, j, ⟨leBytes_length n v, hr⟩, leValue_leBytes n v hv, rfl⟩

/-- A fixed-width integer type stored in `n` bytes has an exact parser. -/
theorem exact_littleEndian {n : ℕ} {short : ℕ → ε} (toNat : α → ℕ) (ofNat : ℕ → α)
    (hlt : ∀ a, toNat a < 256 ^ n) (hof : ∀ a, ofNat (toNat a) = a)
    (hto : ∀ v, v < 256 ^ n → toNat (ofNat v) = v) :
    Exact (do let v ← littleEndian n short; pure (ofNat v)) (fun a => leBytes n (toNat a)) := by
  intro i a j
  simp only [ByteParser.bind_ok_iff, littleEndian_ok_iff, ByteParser.pure_ok_iff, true_and]
  constructor
  · rintro ⟨v, j', ⟨hv, hr⟩, rfl, rfl⟩
    rwa [hto v hv]
  · intro hr
    exact ⟨toNat a, j, ⟨hlt a, hr⟩, hof a, rfl⟩

def Consumes (p : Parser ε α) (bytes : List UInt8) (a : α) : Prop :=
  ∀ i j, Reads i bytes j → p i = .ok (a, j)

theorem ExactOn.consumes {p : Parser ε α} {enc : α → List UInt8} (hp : ExactOn P p enc) {a : α}
    (ha : P a) : Consumes p (enc a) a := by
  intro i j hr
  exact (hp i a j).mpr ⟨ha, hr⟩

theorem Consumes.bind {p : Parser ε α} {f : α → Parser ε β} {as bs : List UInt8} {a : α} {b : β}
    (hp : Consumes p as a) (hf : Consumes (f a) bs b) : Consumes (p >>= f) (as ++ bs) b := by
  intro i k hr
  obtain ⟨j, hra, hrb⟩ := reads_append.mp hr
  exact ByteParser.bind_ok_iff.mpr ⟨a, j, hp i j hra, hf j k hrb⟩

theorem Consumes.last {p : Parser ε α} {f : α → Parser ε β} {as : List UInt8} {a : α} {b : β}
    (hp : Consumes p as a) (hf : Consumes (f a) [] b) : Consumes (p >>= f) as b := by
  have h := hp.bind hf
  rwa [List.append_nil] at h

theorem consumes_pure (a : α) : Consumes (pure a : Parser ε α) [] a := by
  intro i j hr
  exact ByteParser.pure_ok_iff.mpr ⟨rfl, reads_nil.mp hr⟩

theorem consumes_takeBytes {n : ℕ} {short : ℕ → ε} {bytes : List UInt8} (h : bytes.length = n) :
    Consumes (takeBytes n short) bytes bytes := by
  intro i j hr
  exact takeBytes_ok_iff.mpr ⟨h, hr⟩

def Accepts (p : Parser ε Unit) (L : Language UInt8) : Prop :=
  ∀ i j, p i = .ok ((), j) ↔ ∃ bytes ∈ L, Reads i bytes j

theorem Accepts.seq {p q : Parser ε Unit} {L M : Language UInt8} (hp : Accepts p L)
    (hq : Accepts q M) : Accepts (do p; q) (L * M) := by
  intro i k
  rw [ByteParser.bind_ok_iff]
  constructor
  · rintro ⟨_, j, ha, hb⟩
    obtain ⟨as, hla, hra⟩ := (hp i j).mp ha
    obtain ⟨bs, hlb, hrb⟩ := (hq j k).mp hb
    exact ⟨as ++ bs, Language.append_mem_mul hla hlb, reads_append.mpr ⟨j, hra, hrb⟩⟩
  · rintro ⟨bytes, hmem, hr⟩
    obtain ⟨as, hla, bs, hlb, rfl⟩ := Language.mem_mul.mp hmem
    obtain ⟨j, hra, hrb⟩ := reads_append.mp hr
    exact ⟨(), j, (hp i j).mpr ⟨as, hla, hra⟩, (hq j k).mpr ⟨bs, hlb, hrb⟩⟩

theorem accepts_throw (e : ε) : Accepts (throw e : Parser ε Unit) 0 := by
  intro i j
  refine ⟨fun h => (throw_ne_ok h).elim, ?_⟩
  rintro ⟨bytes, hmem, _⟩
  exact hmem.elim

theorem accepts_pure : Accepts (pure () : Parser ε Unit) 1 := by
  intro i j
  rw [ByteParser.pure_ok_iff]
  constructor
  · rintro ⟨_, rfl⟩
    exact ⟨[], rfl, reads_nil.mpr rfl⟩
  · rintro ⟨bytes, rfl, hr⟩
    exact ⟨rfl, reads_nil.mp hr⟩

/-- A block of known length that is skipped. -/
theorem accepts_skip (n : ℕ) (short : ℕ → ε) :
    Accepts (do let _ ← takeBytes n short; pure ()) {bytes | bytes.length = n} := by
  intro i j
  simp only [ByteParser.bind_ok_iff, takeBytes_ok_iff, ByteParser.pure_ok_iff]
  constructor
  · rintro ⟨bytes, _, ⟨hlen, hr⟩, _, rfl⟩
    exact ⟨bytes, hlen, hr⟩
  · rintro ⟨bytes, hlen, hr⟩
    exact ⟨bytes, j, ⟨hlen, hr⟩, trivial, rfl⟩

/-- A value decides how the check goes on. -/
theorem ExactOn.accepts {p : Parser ε α} {enc : α → List UInt8} (hp : ExactOn P p enc)
    {f : α → Parser ε Unit} {M : α → Language UInt8} (hf : ∀ a, P a → Accepts (f a) (M a)) :
    Accepts (p >>= f) {bytes | ∃ a, P a ∧ ∃ rest ∈ M a, enc a ++ rest = bytes} := by
  intro i k
  rw [ByteParser.bind_ok_iff]
  constructor
  · rintro ⟨a, j, ha, hb⟩
    obtain ⟨hPa, hra⟩ := (hp _ _ _).mp ha
    obtain ⟨rest, hmem, hrb⟩ := (hf a hPa _ _).mp hb
    exact ⟨enc a ++ rest, ⟨a, hPa, rest, hmem, rfl⟩, reads_append.mpr ⟨j, hra, hrb⟩⟩
  · rintro ⟨_, ⟨a, hPa, rest, hmem, rfl⟩, hr⟩
    obtain ⟨j, hra, hrb⟩ := reads_append.mp hr
    exact ⟨a, j, (hp _ _ _).mpr ⟨hPa, hra⟩, (hf a hPa _ _).mpr ⟨rest, hmem, hrb⟩⟩

/-- A check that stops by itself accepts no two words that begin one text. -/
theorem Accepts.prefix_free {p : Parser ε Unit} {L : Language UInt8} (hp : Accepts p L)
    {a b x y : List UInt8} (ha : a ∈ L) (hb : b ∈ L) (h : a ++ x = b ++ y) : a = b ∧ x = y := by
  have hfirst : p ⟨a ++ x, 0⟩ = .ok ((), ⟨x, 0 + a.length⟩) :=
    (hp _ _).mpr ⟨a, ha, rfl, rfl⟩
  have hsecond : p ⟨a ++ x, 0⟩ = .ok ((), ⟨y, 0 + b.length⟩) :=
    (hp _ _).mpr ⟨b, hb, h, rfl⟩
  rw [hfirst] at hsecond
  simp only [Except.ok.injEq, Prod.mk.injEq, Input.mk.injEq, true_and] at hsecond
  obtain ⟨rfl, _⟩ := hsecond
  exact ⟨List.append_cancel_right h, rfl⟩

def complete (p : Parser ε α) (trailing : ℕ → ℕ → ε) (bytes : List UInt8) : Except ε α := do
  let (a, j) ← p (Input.ofBytes bytes)
  if j.rest.length ≠ 0 then .error (trailing j.offset j.rest.length)
  else .ok a

/-- A whole byte string is accepted just when it is the encoding of a value. -/
theorem ExactOn.complete_ok_iff {p : Parser ε α} {enc : α → List UInt8} (hp : ExactOn P p enc)
    {trailing : ℕ → ℕ → ε} {bytes : List UInt8} {a : α} :
    complete p trailing bytes = .ok a ↔ P a ∧ bytes = enc a := by
  unfold complete
  rw [Outcome.bind_ok_iff]
  constructor
  · rintro ⟨⟨b, j⟩, hb, h⟩
    obtain ⟨hPb, hr, _⟩ := (hp _ _ _).mp hb
    simp only at h
    split_ifs at h with hl
    obtain rfl := Except.ok.inj h
    have hj : j.rest = [] := by simpa using hl
    rw [hj, List.append_nil] at hr
    exact ⟨hPb, hr⟩
  · rintro ⟨hPa, rfl⟩
    have hread := hp.decode_append hPa [] 0
    rw [List.append_nil] at hread
    exact ⟨_, hread, rfl⟩

theorem Consumes.complete {p : Parser ε α} {bytes : List UInt8} {a : α} (hp : Consumes p bytes a)
    (trailing : ℕ → ℕ → ε) : complete p trailing bytes = .ok a := by
  have hr : Reads (Input.ofBytes bytes) bytes ⟨[], bytes.length⟩ := by
    simp [Reads, Input.ofBytes]
  have h := hp (Input.ofBytes bytes) _ hr
  unfold ByteParser.complete
  rw [h]
  rfl

end Rules

end ByteParser

import Backbook.RequestShapes

namespace Backbook

open ByteParser

def Command.index : Command → ℕ
  | .bookTrade _ => 0
  | .confirmTrade _ => 1
  | .amendTrade _ => 2
  | .cancelTrade _ => 3
  | .runEod _ => 4

theorem commandTag_toNat (command : Command) : (commandTag command).toNat = 1 + command.index := by
  cases command <;> rfl

theorem Command.event_index (command : Command) : command.event.index = command.index := by
  cases command <;> rfl

theorem bodyShape_prefix_free {tag : UInt8} {a b x : Bytes} (ha : a ∈ bodyShape tag)
    (hb : b ∈ bodyShape tag) (h : a ++ x = b) : x = [] := by
  rw [← List.append_nil b] at h
  exact ((accepts_readCommandBody tag).prefix_free ha hb h).2

/-- No stored request continues another, whatever identifiers they are checked for. -/
theorem requestShape_prefix_free {id id' : CommandId} {tag tag' : UInt8} {a b x : Bytes}
    (ha : a ∈ requestShape id tag) (hb : b ∈ requestShape id' tag') (h : a ++ x = b) : x = [] := by
  obtain ⟨body, hbody, rfl⟩ := ha
  obtain ⟨body', hbody', rfl⟩ := hb
  simp only [List.append_assoc] at h
  -- The header and the identifier end where their lengths say, so the bodies are left.
  have hfields := List.append_cancel_left h
  obtain ⟨_, hrest⟩ := (exact_readId .command).append_inj trivial trivial hfields
  obtain ⟨rfl, hlast⟩ := (exact_readU8 malformed).append_inj trivial trivial hrest
  exact bodyShape_prefix_free hbody hbody' hlast

theorem validate_fails {bytes : Bytes} {id : CommandId}
    (h : ∀ tag, bytes ∉ requestShape id tag) :
    ∃ e, validateCanonicalCommandRequest bytes id = .error e := by
  cases hv : validateCanonicalCommandRequest bytes id with
  | ok tag => exact absurd (validate_ok_iff.mp hv) (h tag)
  | error e => exact ⟨e, rfl⟩

/-- Bytes that begin or continue an accepted request are not accepted. -/
theorem validate_prefix_fails {bytes other : Bytes} {id id' : CommandId} {tag : UInt8}
    (h : validateCanonicalCommandRequest bytes id = .ok tag) (hne : other ≠ bytes)
    (hcut : other <+: bytes ∨ bytes <+: other) :
    ∃ e, validateCanonicalCommandRequest other id' = .error e := by
  have hmem := validate_ok_iff.mp h
  apply validate_fails
  intro tag' hmem'
  -- Were both accepted, the longer one would have nothing behind the shorter.
  rcases hcut with ⟨x, hx⟩ | ⟨x, hx⟩
  · have hnil := requestShape_prefix_free hmem' hmem hx
    rw [hnil, List.append_nil] at hx
    exact hne hx
  · have hnil := requestShape_prefix_free hmem hmem' hx
    rw [hnil, List.append_nil] at hx
    exact hne hx.symm

theorem validate_other_id {envelope : CommandEnvelope} {bytes : Bytes} {id : CommandId}
    (h : canonicalCommandBytes envelope = .ok bytes) (hne : id ≠ envelope.commandId) :
    ∃ e, validateCanonicalCommandRequest bytes id = .error e := by
  apply validate_fails
  rintro tag ⟨body, _, hbytes⟩
  rw [canonicalCommandBytes_eq, hbytes] at h
  have hfields := List.append_cancel_left (Except.ok.inj h)
  obtain ⟨hid, _⟩ := (exact_readId .command).append_inj trivial trivial hfields
  exact hne hid.symm

/-- Canonical request bytes identify the request. The check accepts them for their
own command identifier alone, with the variant's tag, and accepts nothing that
begins or continues them. -/
theorem canonical_bytes_identify_request :
    Function.Injective canonicalCommandBytes ∧
    ∀ envelope : CommandEnvelope, ∃ bytes, canonicalCommandBytes envelope = .ok bytes ∧
      (∃ tag, validateCanonicalCommandRequest bytes envelope.commandId = .ok tag ∧
        tag.toNat = 1 + envelope.command.index) ∧
      (∀ state evaluation, evaluateCommand state envelope.command = .ok evaluation →
        evaluation.event.index = envelope.command.index) ∧
      (∀ id, id ≠ envelope.commandId →
        ∃ e, validateCanonicalCommandRequest bytes id = .error e) ∧
      ∀ other id, other ≠ bytes → other <+: bytes ∨ bytes <+: other →
        ∃ e, validateCanonicalCommandRequest other id = .error e := by
  constructor
  · intro first second h
    have hs := canonicalCommandBytes_eq second
    exact canonicalCommandBytes_injective (h.trans hs) hs
  · intro envelope
    have hbytes := canonicalCommandBytes_eq envelope
    have hvalid := validate_canonicalCommandBytes hbytes
    refine ⟨_, hbytes, ⟨_, hvalid, commandTag_toNat _⟩, ?_, ?_, ?_⟩
    · intro state evaluation heval
      obtain ⟨hevent, _⟩ := evaluateCommand_ok heval
      rw [hevent, Command.event_index]
    · intro id hne
      exact validate_other_id hbytes hne
    · intro other id hne hcut
      exact validate_prefix_fails hvalid hne hcut

end Backbook

import Backbook.JournalScan

namespace Backbook

open FramedLog

inductive JournalStoreErrorCode
  | sizeOverflow | openFailed | readFailed | appendFailed | flushFailed | truncateFailed
  | unavailable
deriving DecidableEq, Repr

structure JournalStoreError where
  code : JournalStoreErrorCode
deriving DecidableEq, Repr

/-- The one run-time interface of the source: each operation returns its outcome
and the store as it leaves it. -/
class JournalStore (S : Type) where
  readAll : S → Except JournalStoreError Bytes × S
  appendAndFlush : Bytes → S → Except JournalStoreError Unit × S
  truncate : ℕ → S → Except JournalStoreError Unit × S
  writable : S → Bool

structure MemoryJournalStore where
  bytes : Bytes
  writable : Bool
  failNextAppend : Bool
  failNextTruncate : Bool
deriving DecidableEq

def MemoryJournalStore.ofBytes (bytes : Bytes) : MemoryJournalStore := ⟨bytes, true, false, false⟩

def MemoryJournalStore.appendAndFlush (frame : Bytes) (store : MemoryJournalStore) :
    Except JournalStoreError Unit × MemoryJournalStore :=
  if !store.writable then (.error ⟨.unavailable⟩, store)
  else if store.failNextAppend then
    (.error ⟨.appendFailed⟩, { store with failNextAppend := false, writable := false })
  else (.ok (), { store with bytes := store.bytes ++ frame })

def MemoryJournalStore.truncate (size : ℕ) (store : MemoryJournalStore) :
    Except JournalStoreError Unit × MemoryJournalStore :=
  if !store.writable then (.error ⟨.unavailable⟩, store)
  else if store.failNextTruncate then
    (.error ⟨.truncateFailed⟩, { store with failNextTruncate := false, writable := false })
  else if size > store.bytes.length then (.error ⟨.truncateFailed⟩, store)
  else (.ok (), { store with bytes := store.bytes.take size })

instance : JournalStore MemoryJournalStore where
  readAll store := (.ok store.bytes, store)
  appendAndFlush := MemoryJournalStore.appendAndFlush
  truncate := MemoryJournalStore.truncate
  writable := MemoryJournalStore.writable

structure WriteFault where
  code : JournalStoreErrorCode
  persisted : ℕ
deriving DecidableEq

/-- A file between two openings. Its operating system decides through `fault`
whether the next append fails; reads and truncations succeed. -/
structure FileJournalStore where
  bytes : Bytes
  writable : Bool
  fault : Option WriteFault
deriving DecidableEq

def FileJournalStore.opened (bytes : Bytes) : FileJournalStore := ⟨bytes, true, none⟩

def FileJournalStore.appendAndFlush (frame : Bytes) (store : FileJournalStore) :
    Except JournalStoreError Unit × FileJournalStore :=
  if !store.writable then (.error ⟨.unavailable⟩, store)
  else match store.fault with
    | some fault =>
      (.error ⟨fault.code⟩, ⟨store.bytes ++ frame.take fault.persisted, false, none⟩)
    | none => (.ok (), { store with bytes := store.bytes ++ frame })

-- Resizing beyond the end of a file fills it with zeros.
def FileJournalStore.truncate (size : ℕ) (store : FileJournalStore) :
    Except JournalStoreError Unit × FileJournalStore :=
  if !store.writable then (.error ⟨.unavailable⟩, store)
  else (.ok (), { store with
    bytes := store.bytes.take size ++ List.replicate (size - store.bytes.length) 0 })

instance : JournalStore FileJournalStore where
  readAll store := (.ok store.bytes, store)
  appendAndFlush := FileJournalStore.appendAndFlush
  truncate := FileJournalStore.truncate
  writable := FileJournalStore.writable

/-- The error code of the source is the constructor. -/
inductive JournalRecoveryError
  | storeFailure (error : JournalStoreError)
  | codecFailure (error : CodecError)
deriving DecidableEq, Repr

def recoverJournal {S : Type} [JournalStore S] (store : S) :
    Except JournalRecoveryError JournalScanResult × S :=
  match JournalStore.readAll store with
  | (.error e, store) => (.error (.storeFailure e), store)
  | (.ok bytes, store) =>
    match scanJournal bytes with
    | .error e => (.error (.codecFailure e), store)
    | .ok scan =>
      if scan.truncatedTail then
        match JournalStore.truncate scan.lastValidOffset store with
        | (.error e, store) => (.error (.storeFailure e), store)
        | (.ok (), store) => (.ok scan, store)
      else (.ok scan, store)

/-- Recovery over bytes that do not scan reports why and changes nothing. -/
theorem recoverJournal_codecFailure {bytes : Bytes} {failure : CodecError}
    (h : scanJournal bytes = .error failure) :
    recoverJournal (MemoryJournalStore.ofBytes bytes) =
      (.error (.codecFailure failure), MemoryJournalStore.ofBytes bytes) := by
  have hread : JournalStore.readAll (MemoryJournalStore.ofBytes bytes) =
      (.ok bytes, MemoryJournalStore.ofBytes bytes) := rfl
  unfold recoverJournal
  rw [hread]
  simp only [h]

/-- Recovery keeps what was scanned and truncates the rest, if there is any. -/
theorem recoverJournal_ok {S : Type} [JournalStore S] {store cut : S} {bytes : Bytes}
    {scan : JournalScanResult} (hread : JournalStore.readAll store = (.ok bytes, store))
    (h : scanJournal bytes = .ok scan)
    (hcut : JournalStore.truncate scan.lastValidOffset store = (.ok (), cut)) :
    recoverJournal store = (.ok scan, if scan.truncatedTail then cut else store) := by
  unfold recoverJournal
  rw [hread]
  simp only [h, hcut]
  split_ifs <;> rfl

/-- What a scan leaves behind its last valid offset is exactly the torn tail. -/
theorem scanJournal_offset {bytes : Bytes} {scan : JournalScanResult}
    (h : scanJournal bytes = .ok scan) : scan.lastValidOffset ≤ bytes.length ∧
      (scan.truncatedTail = false → bytes.take scan.lastValidOffset = bytes) := by
  obtain ⟨frames, rest, _, rfl, hoffset, hend⟩ := journalFormat_lawful.scan_ok h
  rw [hoffset, List.take_left, List.length_append]
  refine ⟨by omega, ?_⟩
  intro ht
  rcases hend with ⟨_, rfl⟩ | ⟨ht', _⟩
  · rw [List.append_nil]
  · rw [ht] at ht'
    contradiction

theorem recoverJournal_memory {bytes : Bytes} {scan : JournalScanResult}
    (h : scanJournal bytes = .ok scan) :
    recoverJournal (MemoryJournalStore.ofBytes bytes) =
      (.ok scan, MemoryJournalStore.ofBytes (bytes.take scan.lastValidOffset)) := by
  obtain ⟨hle, htake⟩ := scanJournal_offset h
  have hcut : JournalStore.truncate scan.lastValidOffset (MemoryJournalStore.ofBytes bytes) =
      (.ok (), MemoryJournalStore.ofBytes (bytes.take scan.lastValidOffset)) := by
    have hn : ¬scan.lastValidOffset > (MemoryJournalStore.ofBytes bytes).bytes.length :=
      Nat.not_lt.mpr hle
    change MemoryJournalStore.truncate _ _ = _
    rw [MemoryJournalStore.truncate, if_neg (by simp [MemoryJournalStore.ofBytes]),
      if_neg (by simp [MemoryJournalStore.ofBytes]), if_neg hn]
    rfl
  rw [recoverJournal_ok rfl h hcut]
  split_ifs with ht
  · rfl
  · rw [htake (by simpa using ht)]

theorem recoverJournal_file {bytes : Bytes} {scan : JournalScanResult}
    (h : scanJournal bytes = .ok scan) :
    recoverJournal (FileJournalStore.opened bytes) =
      (.ok scan, FileJournalStore.opened (bytes.take scan.lastValidOffset)) := by
  obtain ⟨hle, htake⟩ := scanJournal_offset h
  have hcut : JournalStore.truncate scan.lastValidOffset (FileJournalStore.opened bytes) =
      (.ok (), FileJournalStore.opened (bytes.take scan.lastValidOffset)) := by
    have hgrow : scan.lastValidOffset - (FileJournalStore.opened bytes).bytes.length = 0 :=
      Nat.sub_eq_zero_of_le hle
    change FileJournalStore.truncate _ _ = _
    rw [FileJournalStore.truncate, if_neg (by simp [FileJournalStore.opened]), hgrow,
      List.replicate_zero, List.append_nil]
    rfl
  rw [recoverJournal_ok rfl h hcut]
  split_ifs with ht
  · rfl
  · rw [htake (by simpa using ht)]

end Backbook

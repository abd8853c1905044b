import JaszczurHal.BondCodec
import Mathlib.Tactic

/-!
# The Bluetooth Classic manager

Pairing, the link key that waits to be saved, and the table of bonded peers.
Peers stand in a table of their own; each remembers the slot of the bond
provider that holds its record.
-/

set_option autoImplicit false

namespace JaszczurHal.BtClassic
open HalStatus BondCodec

structure PeerSlot where
  identity : Identity
  storageIndex : ℕ
  used : Bool
  deriving DecidableEq, Repr

def zeroIdentity : Identity := ⟨Vector.replicate 6 0, Vector.replicate 16 0, 0, 0, 0⟩

def emptyPeer : PeerSlot := ⟨zeroIdentity, 0, false⟩

structure PendingKey where
  address : Address
  linkKey : Vector UInt8 16
  linkKeyType : UInt8
  deriving DecidableEq, Repr

/-- The manager. An optional value stands for a value and its valid flag;
`pendingSave` has the profile that is to be saved. -/
structure Classic where
  opened : Bool
  operationActive : Bool
  providerEnabled : Bool
  peers : List PeerSlot
  pairing : Option Address
  approved : Option Address
  pendingKey : Option PendingKey
  pendingSave : Option (Address × UInt16)
  nextSequence : UInt32
  deriving DecidableEq, Repr

def clearBondState (maxPeers : ℕ) (c : Classic) : Classic :=
  { c with peers := List.replicate maxPeers emptyPeer, approved := none, pendingKey := none
           pendingSave := none, nextSequence := 0 }

def closedClassic (maxPeers : ℕ) : Classic :=
  ⟨false, false, false, List.replicate maxPeers emptyPeer, none, none, none, none, 0⟩

def PeerSlot.holds (slot : PeerSlot) (address : Address) : Bool :=
  slot.used && slot.identity.address == address

def findPeer (peers : List PeerSlot) (address : Address) : Option ℕ :=
  peers.findIdx? fun slot => slot.holds address

/-- The loop of `select_peer_slot_locked`: the peer and the storage index for an
address, given the first free entry and the oldest one so far. -/
def selectFrom (address : Address) : List PeerSlot → ℕ → Option ℕ → Option (ℕ × PeerSlot) →
    Option (ℕ × ℕ)
  | [], _, some empty, _ => some (empty, empty)
  | [], _, none, some (index, oldest) => some (index, oldest.storageIndex)
  | [], _, none, none => none
  | slot :: rest, index, empty, oldest =>
    if slot.holds address then some (index, slot.storageIndex)
    else if slot.used = false ∧ empty = none then
      selectFrom address rest (index+1) (some index) oldest
    else if slot.used = true ∧
        (oldest.all fun o => slot.identity.sequence < o.2.identity.sequence) = true then
      selectFrom address rest (index+1) empty (some (index, slot))
    else selectFrom address rest (index+1) empty oldest

def selectPeerSlot (peers : List PeerSlot) (address : Address) : Option (ℕ × ℕ) :=
  selectFrom address peers 0 none none

inductive BackendEvent where
  | pairingRequest (address : Address)
  | authentication (status : Status)
  | linkKey (key : PendingKey)
  deriving DecidableEq, Repr

def backendEvent (c : Classic) (e : BackendEvent) : Classic :=
  if c.opened = false then c
  else
    match e with
    | .pairingRequest address => { c with approved := none, pairing := some address }
    | .authentication status =>
      { c with pairing := none, approved := if status = .ok then c.approved else none }
    | .linkKey key => { c with pendingKey := some key }

def beginOperation (c : Classic) : Classic × Status :=
  if c.opened = false then (c, .euninit)
  else if c.operationActive then (c, .ebusy)
  else ({ c with operationActive := true }, .ok)

def endOperation (c : Classic) : Classic := { c with operationActive := false }

def recordApproval (c : Classic) (address : Address) : Classic :=
  if c.opened then { c with approved := some address } else c

def peerSave (c : Classic) (address : Address) (profileId : UInt16) : Classic × Status :=
  if address = Vector.replicate 6 0 ∨ profileId = 0 then (c, .einval)
  else if c.opened = false then (c, .euninit)
  else if c.operationActive then (c, .ebusy)
  else if c.approved ≠ some address then
    match findPeer c.peers address with
    | some index =>
      if (c.peers.getD index emptyPeer).identity.profileId = profileId then (c, .ok) else (c, .eauth)
    | none => (c, .eauth)
  else ({ c with pendingSave := some (address, profileId) }, .ok)

structure FlushJob where
  identity : Identity
  slot : ℕ
  storageIndex : ℕ
  providerEnabled : Bool
  deriving DecidableEq, Repr

def nextAfter (sequence : UInt32) : UInt32 := if sequence+1 = 0 then 1 else sequence+1

def flushBegin (c : Classic) : Classic × Except Status (Option FlushJob) :=
  if c.opened = false then (c, .error .euninit)
  else if c.operationActive then (c, .error .ebusy)
  else
    match c.pendingKey, c.pendingSave with
    | some key, some (address, profileId) =>
      if key.address = address then
        let identity : Identity :=
          { address := key.address, linkKey := key.linkKey, linkKeyType := key.linkKeyType
            profileId := profileId, sequence := nextAfter c.nextSequence }
        match selectPeerSlot c.peers address with
        | none => (c, .error .eoverflow)
        | some (slot, storageIndex) =>
          ({ c with operationActive := true },
            .ok (some ⟨identity, slot, storageIndex, c.providerEnabled⟩))
      else (c, .ok none)
    | _, _ => (c, .ok none)

/-- A flush starts with a job for a chosen entry, or it changes nothing. -/
theorem flushBegin_cases (c : Classic) :
    (∃ r, flushBegin c = (c, r) ∧ ∀ job, r ≠ .ok (some job)) ∨
      ∃ job, flushBegin c = ({ c with operationActive := true }, .ok (some job)) ∧
        c.opened = true ∧ job.providerEnabled = c.providerEnabled ∧
        selectPeerSlot c.peers job.identity.address = some (job.slot, job.storageIndex) ∧
        c.pendingKey = some ⟨job.identity.address, job.identity.linkKey, job.identity.linkKeyType⟩ ∧
        ∃ profileId, c.pendingSave = some (job.identity.address, profileId) := by
  rw [flushBegin]
  by_cases hopened : c.opened = false
  · rw [if_pos hopened]
    exact Or.inl ⟨_, rfl, nofun⟩
  rw [if_neg hopened]
  by_cases hactive : c.operationActive = true
  · rw [if_pos hactive]
    exact Or.inl ⟨_, rfl, nofun⟩
  rw [if_neg hactive]
  cases c.pendingKey with
  | none => exact Or.inl ⟨_, rfl, nofun⟩
  | some key =>
    cases c.pendingSave with
    | none => exact Or.inl ⟨_, rfl, nofun⟩
    | some save =>
      dsimp only
      by_cases hsame : key.address = save.1
      · rw [if_pos hsame]
        cases hselect : selectPeerSlot c.peers save.1 with
        | none => exact Or.inl ⟨_, rfl, nofun⟩
        | some found =>
          refine Or.inr ⟨_, rfl, by simpa using hopened, rfl, ?_, rfl, save.2, ?_⟩
          · dsimp only
            rw [hsame, hselect]
          · dsimp only
            rw [hsame]
      · rw [if_neg hsame]
        exact Or.inl ⟨_, rfl, nofun⟩

def FlushJob.record (job : FlushJob) : Except Status (List UInt8) :=
  if job.identity.linkKey = Vector.replicate 16 0 then .error .eunsupported
  else bondEncode job.identity

def FlushJob.outcome (job : FlushJob) (store restore : Status) : Status :=
  if job.providerEnabled then
    match job.record with
    | .error status => status
    | .ok _ => if store = .ok then restore else store
  else restore

def flushEnd (c : Classic) (job : FlushJob) (status : Status) : Classic :=
  if status = .ok then
    { c with nextSequence := job.identity.sequence
             peers := c.peers.set job.slot ⟨job.identity, job.storageIndex, true⟩
             pendingKey := none, pendingSave := none, approved := none, operationActive := false }
  else { c with operationActive := false }

abbrev Storage := List (Option (List UInt8))

def storeRecord (s : Storage) (index : ℕ) (blob : List UInt8) (status : Status) : Storage :=
  if status = .ok then s.set index (some blob) else s

def eraseRecord (s : Storage) (index : ℕ) (status : Status) : Storage :=
  if status = .ok then s.set index none else s

def loadRecord (slot : Option (List UInt8)) (status : Status) :
    Except Status (Option (List UInt8)) :=
  if status = .ok ∨ status = .enoent then .ok slot else .error status

structure OpenAnswers where
  start : Status
  load : ℕ → Status
  restore : ℕ → Status

def restoredPeer (c : Classic) (index : ℕ) (identity : Identity) (slot : ℕ) : Classic :=
  { c with peers := c.peers.set slot ⟨identity, index, true⟩
           nextSequence := max c.nextSequence identity.sequence }

def restoreRecords (a : OpenAnswers) (c : Classic) : Storage → ℕ → Classic × Status
  | [], _ => (c, .ok)
  | slot :: rest, index =>
    match loadRecord slot (a.load index) with
    | .error status => (c, status)
    | .ok none => restoreRecords a c rest (index+1)
    | .ok (some blob) =>
      match bondDecode blob with
      | .error _ => restoreRecords a c rest (index+1)
      | .ok identity =>
        match (findPeer c.peers identity.address).orElse
            (fun _ => c.peers.findIdx? fun slot => !slot.used) with
        | none => (c, .eoverflow)
        | some i =>
          if a.restore index = .ok then
            restoreRecords a (restoredPeer c index identity i) rest (index+1)
          else (restoredPeer c index identity i, a.restore index)

def openWith (maxPeers : ℕ) (c : Classic) (s : Storage) (a : OpenAnswers) : Classic × Status :=
  if s.length = 0 ∨ maxPeers < s.length then (c, .einval)
  else if c.opened = true ∨ c.operationActive = true then (c, .ebusy)
  else
    let cleared := { clearBondState maxPeers c with opened := true, providerEnabled := true
                                                    pairing := none }
    let restored := if a.start = .ok then restoreRecords a cleared s 0 else (cleared, a.start)
    if restored.2 = .ok then restored
    else ({ clearBondState maxPeers restored.1 with opened := false }, restored.2)

def close (maxPeers : ℕ) (c : Classic) (stop : Status) : Classic × Status :=
  if c.opened = false then (c, .euninit)
  else if c.operationActive then (c, .ebusy)
  else ({ clearBondState maxPeers c with opened := false, providerEnabled := false }, stop)

def peerForget (c : Classic) (s : Storage) (address : Address) (erase forget : Status) :
    (Classic × Storage) × Status :=
  if address = Vector.replicate 6 0 then ((c, s), .einval)
  else if c.opened = false then ((c, s), .euninit)
  else if c.operationActive then ((c, s), .ebusy)
  else
    match findPeer c.peers address with
    | none => ((c, s), .enoent)
    | some i =>
      let slot := c.peers.getD i emptyPeer
      if c.providerEnabled = true ∧ erase ≠ .ok then ((c, s), erase)
      else
        (({ c with peers := c.peers.set i ⟨zeroIdentity, slot.storageIndex, false⟩ },
          if c.providerEnabled then eraseRecord s slot.storageIndex erase else s), forget)

end JaszczurHal.BtClassic

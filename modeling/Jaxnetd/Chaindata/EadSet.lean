import Jaxnetd.Chaindata.UtxoView
import Jaxnetd.TxScript.LockScript

/-!
# The addresses of exchange agents

A view of the beacon chain carries the addresses that exchange agents have registered with outputs (`utxoviewpoint.go`,
`msg_ead_info.go`). They are read from the database when the view fetches outputs, an output of a transaction of version 3
adds its address, and after each transaction the addresses of all outputs spent so far are taken out. `PutEADAddresses`
(`chaindb_io.go`) writes what the view has.
-/

namespace Jaxnetd.Chaindata
open Wire TxScript Checks List UtxoViewpoint

/-- `net.ParseIP`, of which the classes of scripts only use whether it gives an address. -/
class IPParser [Primitives] where
  parseIP : Bytes → Option (FixedBytes 16)
  isIP_eq : ∀ data, Primitives.isIP data = (parseIP data).isSome

/-- Where an agent is reached: at an IP address or, without one, under a URL. -/
structure Host where
  ip : Option (FixedBytes 16)
  url : Bytes
  one : ip.isSome → url = []
deriving DecidableEq

def hexEncode (src : Bytes) : Bytes :=
  let digit (n : Nat) : UInt8 := UInt8.ofNat (if n < 10 then n + 48 else n + 87)
  src.flatMap fun x => [digit (x.toNat / 16), digit (x.toNat % 16)]

structure EADScriptData where
  rawKey : Bytes
  host : Host
  shardID : Nat
  expirationDate : Int
  port : Int
deriving DecidableEq

section Script
variable [Primitives] [IPParser]

def hostOf (data : Bytes) : Host :=
  match IPParser.parseIP data with
  | some ip => ⟨some ip, [], fun _ => rfl⟩
  | none => ⟨none, data, nofun⟩

/-- `EADAddressScriptData` with the key and the address. -/
def eadScriptData (script : Bytes) : Except ScriptError EADScriptData := do
  let pops ← parsed script
  let (shardID, expirationDate, port) ← eadAddressScriptData script
  return ⟨hexEncode (opAt pops 0).data, hostOf (opAt pops 5).data, shardID, expirationDate, port⟩

end Script

/-! ## `EADAddresses` -/

structure EADAddress (H : Type) where
  host : Host
  port : Nat
  expiresAt : Int
  shard : Nat
  txHash : H
  txOutIndex : Nat
deriving DecidableEq

structure EADAddresses (H : Type) where
  id : Nat
  ownerPubKey : Bytes
  addresses : List (EADAddress H)
deriving DecidableEq

variable {H : Type} (msg : EADAddress H)

/-- `Eq`: an empty part of the address matches everything. -/
def EADAddress.eq (host : Host) (shardID : Nat) : Bool :=
  (msg.host.ip = none || msg.host.ip = host.ip) && (msg.host.url = [] || msg.host.url = host.url) && msg.shard = shardID

def EADScriptData.address (data : EADScriptData) (hash : H) (ind : Nat) : EADAddress H :=
  ⟨data.host, (data.port % 2 ^ 16).toNat, data.expirationDate, data.shardID, hash, ind⟩

/-- The address `AddAddress` adds, in place of those that match. -/
def EADAddresses.addAddress (msg : EADAddresses H) (data : EADScriptData) (hash : H) (ind : Nat) : EADAddresses H :=
  { msg with addresses := (msg.addresses.filter fun p => !p.eq data.host data.shardID) ++ [data.address hash ind] }

/-- An address as it comes back from the database: the expiration date has 32 bits there. -/
def EADAddress.stored : EADAddress H := { msg with expiresAt := msg.expiresAt % 2 ^ 32 }

def EADAddresses.stored (msg : EADAddresses H) : EADAddresses H :=
  { msg with addresses := msg.addresses.map EADAddress.stored }

/-! ## `eadAddrSet` -/

/-- `eadAddrSet`: an owner can be missing, or stand there with a nil pointer. -/
abbrev EadAddrSet (H : Type) := AList fun _ : Bytes => Option (EADAddresses H)

/-- The bucket `ead_addresses_v2`, with its rows decoded. -/
abbrev EadRows (H : Type) := AList fun _ : Bytes => EADAddresses H

namespace EadAddrSet

/-- `add`; `id` is the random number that a new owner gets. `AddAddress` of a nil pointer panics. -/
def add (eSet : EadAddrSet H) (id : Nat) (scriptData : EADScriptData) (txHash : H) (outN : Nat) :
    Except ChainError (EadAddrSet H) :=
  match eSet.lookup scriptData.rawKey with
  | some none => .error (.other "nil pointer dereference")
  | some (some addr) => .ok (eSet.insert scriptData.rawKey (some (addr.addAddress scriptData txHash outN)))
  | none =>
    .ok (eSet.insert scriptData.rawKey
      (some ((EADAddresses.mk id scriptData.rawKey []).addAddress scriptData txHash outN)))

def remove (eSet : EadAddrSet H) (scriptData : EADScriptData) : EadAddrSet H :=
  match eSet.lookup scriptData.rawKey with
  | some (some address) =>
    let filtered := address.addresses.filter fun p => !p.eq scriptData.host scriptData.shardID
    if filtered = [] then eSet.insert scriptData.rawKey none
    else eSet.insert scriptData.rawKey (some { address with addresses := filtered })
  | _ => eSet.insert scriptData.rawKey none

end EadAddrSet

variable (rows : EadRows H)

/-- The loop of `PutEADAddresses`. -/
def putRow (entry : (_ : Bytes) × Option (EADAddresses H)) : EadRows H :=
  match entry.2 with
  | none => rows.erase entry.1
  | some addresses => rows.insert entry.1 addresses.stored

def putEADAddresses (updateSet : EadAddrSet H) : EadRows H := updateSet.entries.foldl putRow rows

def maxEADDomainLen : Nat := 256

/-- The loop of `FetchAllEADAddresses`. A row does not decode with too long a URL. -/
def fetchRow (view : EadAddrSet H) (row : (_ : Bytes) × EADAddresses H) : Except ChainError (EadAddrSet H) := do
  failIf (row.2.addresses.any fun a => maxEADDomainLen < a.host.url.length) (.other "corrupt ead addresses entry")
  return view.insert row.1 (some row.2)

def fetchAllEADAddresses : Except ChainError (EadAddrSet H) := rows.entries.foldlM fetchRow ∅

/-! ## The view -/

structure EadViewpoint (H : Type) extends UtxoViewpoint H where
  eadAddresses : EadAddrSet H

namespace EadViewpoint
variable [DecidableEq H] [ChainHash H] [Primitives] [IPParser] (rand : OutPoint H → Nat)

/-- The loop of `connectEADTransaction` from an index on. -/
def registerFrom (hash : H) : Nat → List TxOut → EadAddrSet H → Except ChainError (EadAddrSet H)
  | _, [], eSet => .ok eSet
  | outInd, out :: outputs, eSet =>
    if getScriptClass out.pkScript = .eadAddressTy then do
      let scriptData ← scriptResult (eadScriptData out.pkScript)
      let eSet ← EadAddrSet.add eSet (rand ⟨hash, outInd⟩) scriptData hash outInd
      registerFrom hash (outInd + 1) outputs eSet
    else registerFrom hash (outInd + 1) outputs eSet

variable (view : EadViewpoint H)

def connectEADTransaction (tx : MsgTx H) : Except ChainError (EadAddrSet H) :=
  if view.beacon then registerFrom rand tx.txHash 0 tx.txOut view.eadAddresses else .ok view.eadAddresses

/-- The loop of `disconnectEADAddresses`. -/
def removeAll : List SpentTxOut → EadAddrSet H → Except ChainError (EadAddrSet H)
  | [], eSet => .ok eSet
  | input :: stxos, eSet =>
    if getScriptClass input.pkScript = .eadAddressTy then do
      let scriptData ← scriptResult (eadScriptData input.pkScript)
      removeAll stxos (EadAddrSet.remove eSet scriptData)
    else removeAll stxos eSet

def disconnectEADAddresses (eSet : EadAddrSet H) : Option (List SpentTxOut) → Except ChainError (EadAddrSet H)
  | none => .ok eSet
  | some stxos => removeAll stxos eSet

def connectTransaction (tx : MsgTx H) (blockHeight : Int) (stxos : Option (List SpentTxOut)) :
    Except ChainError (EadViewpoint H × Option (List SpentTxOut)) :=
  if isCoinBase tx then .ok (⟨view.toUtxoViewpoint.addTxOuts tx blockHeight, view.eadAddresses⟩, stxos)
  else if tx.swapTx then do
    let (entries, stxos) ← view.toUtxoViewpoint.connectSwapTransaction tx blockHeight stxos
    return (⟨entries, view.eadAddresses⟩, stxos)
  else do
    let eSet ← (if tx.version = txVerEADAction then view.connectEADTransaction rand tx else .ok view.eadAddresses)
    let (entries, stxos) ← spendInputs tx.txIn view.toUtxoViewpoint stxos
    let eSet ← disconnectEADAddresses eSet stxos
    return (⟨entries.addTxOuts tx blockHeight, eSet⟩, stxos)

/-- The loop of `ConnectTransactions`. -/
def connectAll (blockHeight : Int) : List (MsgTx H) → EadViewpoint H → Option (List SpentTxOut) →
    Except ChainError (EadViewpoint H × Option (List SpentTxOut))
  | [], view, stxos => .ok (view, stxos)
  | tx :: txs, view, stxos => do
    let (view, stxos) ← view.connectTransaction rand tx blockHeight stxos
    connectAll blockHeight txs view stxos

omit [Primitives] [IPParser] [ChainHash H] in
/-- `FetchUtxosMain`. The addresses come along with the outputs, if any are asked for. -/
def fetchUtxosMain (db : UtxoSet H) (rows : EadRows H) (outpoints : List (OutPoint H)) :
    Except ChainError (EadViewpoint H) :=
  if outpoints = [] then .ok view
  else do
    let entries := view.toUtxoViewpoint.fetchUtxosMain db outpoints
    let data ← (if view.beacon then fetchAllEADAddresses rows else .ok view.eadAddresses)
    return ⟨entries, data⟩

omit [Primitives] [IPParser] in
def fetchInputUtxos (db : UtxoSet H) (rows : EadRows H) (txs : List (MsgTx H)) (blockHeight : Int) :
    Except ChainError (EadViewpoint H) :=
  let (entries, needed) := fetchTxs txs blockHeight 0 (txs.drop 1) (view.toUtxoViewpoint, [])
  fetchUtxosMain ⟨entries, view.eadAddresses⟩ db rows needed

end EadViewpoint

def newEadViewpoint (beacon : Bool) (bestHash : H) : EadViewpoint H := ⟨newUtxoViewpoint beacon bestHash, ∅⟩

/-! ## The addresses of an owner -/

def EadAddrSet.of (eSet : EadAddrSet H) (owner : Bytes) : List (EADAddress H) :=
  match eSet.lookup owner with
  | some (some addr) => addr.addresses
  | _ => []

def EadRows.of (owner : Bytes) : List (EADAddress H) :=
  match rows.lookup owner with
  | some addr => addr.addresses
  | none => []

variable {hash : H}

namespace EadAddrSet
variable {eSet eSet' : EadAddrSet H} {data : EADScriptData} {owner : Bytes}

theorem of_insert (eSet : EadAddrSet H) (k : Bytes) (v : Option (EADAddresses H)) (owner : Bytes) :
    EadAddrSet.of (eSet.insert k v) owner =
      if owner = k then v.elim [] EADAddresses.addresses else EadAddrSet.of eSet owner := by
  unfold EadAddrSet.of
  by_cases h : owner = k
  · subst h
    rw [AList.lookup_insert, if_pos rfl]
    cases v <;> rfl
  · rw [AList.lookup_insert_ne h, if_neg h]

theorem mem_insert_of_mem {k : Bytes} {v : Option (EADAddresses H)} (h : owner ∈ eSet) : owner ∈ eSet.insert k v :=
  (AList.mem_insert eSet).2 (Or.inr h)

theorem of_eq_nil (h : owner ∉ eSet) : EadAddrSet.of eSet owner = [] := by
  rw [EadAddrSet.of, AList.lookup_eq_none.2 h]

/-- What the source does to the addresses of an owner when the data of an output matches some of them. -/
def dropEq (data : EADScriptData) (addresses : List (EADAddress H)) : List (EADAddress H) :=
  addresses.filter fun p => !p.eq data.host data.shardID

theorem add_ok {id : Nat} {ind : Nat} (h : add eSet id data hash ind = .ok eSet') :
    (∀ owner, EadAddrSet.of eSet' owner = if owner = data.rawKey then
      dropEq data (EadAddrSet.of eSet owner) ++ [data.address hash ind] else EadAddrSet.of eSet owner) ∧
        ∀ owner ∈ eSet, owner ∈ eSet' := by
  obtain ⟨addr, haddr, rfl⟩ : ∃ addr : EADAddresses H, EadAddrSet.of eSet data.rawKey = addr.addresses ∧
      eSet' = eSet.insert data.rawKey (some (addr.addAddress data hash ind)) := by
    unfold add at h
    split at h
    · cases h
    · next addr haddr => exact ⟨addr, by rw [EadAddrSet.of, haddr], (Except.ok.inj h).symm⟩
    · next hnone => exact ⟨_, by rw [EadAddrSet.of, hnone], (Except.ok.inj h).symm⟩
  refine ⟨fun owner => ?_, fun owner => mem_insert_of_mem⟩
  rw [of_insert]
  split
  · next hk =>
    rw [hk, haddr]
    rfl
  · rfl

theorem remove_eq (eSet : EadAddrSet H) (data : EADScriptData) : ∃ v : Option (EADAddresses H),
    remove eSet data = eSet.insert data.rawKey v ∧
      v.elim [] EADAddresses.addresses = dropEq data (EadAddrSet.of eSet data.rawKey) := by
  unfold remove EadAddrSet.of
  split
  · next address _ =>
    dsimp only
    split
    · next hempty => exact ⟨none, rfl, hempty.symm⟩
    · exact ⟨some _, rfl, rfl⟩
  · exact ⟨none, rfl, rfl⟩

theorem of_remove (eSet : EadAddrSet H) (data : EADScriptData) (owner : Bytes) :
    EadAddrSet.of (remove eSet data) owner =
      if owner = data.rawKey then dropEq data (EadAddrSet.of eSet owner) else EadAddrSet.of eSet owner := by
  obtain ⟨v, hv, haddresses⟩ := remove_eq eSet data
  rw [hv, of_insert, haddresses]
  split
  · next hk => rw [hk]
  · rfl

theorem mem_remove (h : owner ∈ eSet) : owner ∈ remove eSet data := by
  obtain ⟨v, hv, -⟩ := remove_eq eSet data
  rw [hv]
  exact mem_insert_of_mem h

end EadAddrSet

/-! ## Rows -/

theorem lookup_putRows (entries : List ((_ : Bytes) × Option (EADAddresses H))) (hnodup : entries.NodupKeys)
    (rows : EadRows H) (owner : Bytes) : (entries.foldl putRow rows).lookup owner = match entries.dlookup owner with
      | some v => v.map EADAddresses.stored
      | none => rows.lookup owner := by
  induction entries generalizing rows with
  | nil => rfl
  | cons entry entries ih =>
    obtain ⟨k, v⟩ := entry
    rw [nodupKeys_cons] at hnodup
    rw [foldl_cons, ih hnodup.2]
    by_cases hk : k = owner
    · subst hk
      rw [dlookup_cons_eq, dlookup_eq_none.2 hnodup.1]
      cases v with
      | none => exact AList.lookup_erase k rows
      | some addresses => exact AList.lookup_insert rows
    · have hskip : dlookup owner (⟨k, v⟩ :: entries) = entries.dlookup owner := dlookup_cons_ne _ _ (Ne.symm hk)
      rw [hskip]
      cases hlook : entries.dlookup owner with
      | some w => rfl
      | none =>
        cases v with
        | none => exact AList.lookup_erase_ne (Ne.symm hk)
        | some addresses => exact AList.lookup_insert_ne (Ne.symm hk)

theorem of_putEADAddresses (eSet : EadAddrSet H) (owner : Bytes) :
    EadRows.of (putEADAddresses rows eSet) owner =
      if owner ∈ eSet then (EadAddrSet.of eSet owner).map EADAddress.stored else EadRows.of rows owner := by
  have hlookup : (putEADAddresses rows eSet).lookup owner = match eSet.lookup owner with
      | some v => v.map EADAddresses.stored
      | none => rows.lookup owner := lookup_putRows eSet.entries eSet.nodupKeys rows owner
  unfold EadRows.of EadAddrSet.of
  rw [hlookup]
  by_cases hmem : owner ∈ eSet
  · obtain ⟨v, hv⟩ := Option.isSome_iff_exists.1 (AList.lookup_isSome.2 hmem)
    rw [if_pos hmem, hv]
    cases v <;> rfl
  · rw [if_neg hmem, AList.lookup_eq_none.2 hmem]

theorem lookup_fetchRows {entries : List ((_ : Bytes) × EADAddresses H)} (hnodup : entries.NodupKeys)
    {view view' : EadAddrSet H} (h : entries.foldlM fetchRow view = .ok view') (owner : Bytes) :
    view'.lookup owner = match entries.dlookup owner with
      | some row => some (some row)
      | none => view.lookup owner := by
  induction entries generalizing view with
  | nil =>
    cases h
    rfl
  | cons entry entries ih =>
    obtain ⟨k, row⟩ := entry
    rw [nodupKeys_cons] at hnodup
    simp only [foldlM_cons, fetchRow, ok_rules] at h
    obtain ⟨_, ⟨-, rfl⟩, h⟩ := h
    rw [ih hnodup.2 h]
    by_cases hk : k = owner
    · subst hk
      rw [dlookup_cons_eq, dlookup_eq_none.2 hnodup.1]
      exact AList.lookup_insert view
    · have hskip : dlookup owner (⟨k, row⟩ :: entries) = entries.dlookup owner := dlookup_cons_ne _ _ (Ne.symm hk)
      rw [hskip]
      cases hlook : entries.dlookup owner with
      | some w => rfl
      | none => exact AList.lookup_insert_ne (Ne.symm hk)

theorem fetchAllEADAddresses_ok {rows : EadRows H} {eSet : EadAddrSet H} (h : fetchAllEADAddresses rows = .ok eSet)
    (owner : Bytes) : EadAddrSet.of eSet owner = EadRows.of rows owner ∧ (owner ∉ eSet → EadRows.of rows owner = []) := by
  have hlookup : eSet.lookup owner = match rows.lookup owner with
      | some row => some (some row)
      | none => none := lookup_fetchRows rows.nodupKeys h owner
  have hof : EadAddrSet.of eSet owner = EadRows.of rows owner := by
    unfold EadAddrSet.of EadRows.of
    rw [hlookup]
    cases rows.lookup owner <;> rfl
  refine ⟨hof, fun hmem => ?_⟩
  rw [← hof]
  exact EadAddrSet.of_eq_nil hmem

/-! ## Connecting -/

section Connect
variable [Primitives] [IPParser] {script : Bytes}

def eadOf (script : Bytes) : Option EADScriptData :=
  if getScriptClass script = .eadAddressTy then (eadScriptData script).toOption else none

variable {data : EADScriptData}

theorem eadOf_eq_some :
    eadOf script = some data ↔ getScriptClass script = .eadAddressTy ∧ eadScriptData script = .ok data := by
  unfold eadOf
  split
  · next hclass => cases eadScriptData script <;> simp [hclass, Except.toOption]
  · next hclass => simp [hclass]

theorem eadAddressScriptData_ok (h : scriptResult (eadScriptData script) = .ok data) :
    ∃ parts, scriptResult (eadAddressScriptData script) = .ok parts := by
  simp only [scriptResult, mapError_eq_ok, eadScriptData, bind_eq_ok] at h ⊢
  obtain ⟨_, -, parts, hparts, -⟩ := h
  exact ⟨parts, hparts⟩

theorem eadOf_cases {α : Type} {f : EADScriptData → Except ChainError α} {m : Except ChainError α} {a : α}
    (h : (if getScriptClass script = .eadAddressTy then scriptResult (eadScriptData script) >>= f else m) = .ok a) :
    (eadOf script = none ∧ getScriptClass script ≠ .eadAddressTy ∧ m = .ok a) ∨
      ∃ data, eadOf script = some data ∧ getScriptClass script = .eadAddressTy ∧
        (∃ parts, scriptResult (eadAddressScriptData script) = .ok parts) ∧ f data = .ok a := by
  split at h
  · next hclass =>
    obtain ⟨data, hdata, h⟩ := bind_eq_ok.1 h
    have hparts := eadAddressScriptData_ok hdata
    rw [scriptResult, mapError_eq_ok] at hdata
    exact Or.inr ⟨data, eadOf_eq_some.2 ⟨hclass, hdata⟩, hclass, hparts, h⟩
  · next hclass => exact Or.inl ⟨if_neg hclass, hclass, h⟩

namespace EadViewpoint
variable {rand : OutPoint H → Nat} {eSet eSet' : EadAddrSet H}

omit [IPParser] in
theorem checkEADScripts_cons {scripts : List Bytes}
    (h : getScriptClass script = .eadAddressTy → ∃ parts, scriptResult (eadAddressScriptData script) = .ok parts)
    (hrest : checkEADScripts scripts = .ok ()) : checkEADScripts (script :: scripts) = .ok () := by
  rw [checkEADScripts]
  split
  · next hclass =>
    obtain ⟨parts, hparts⟩ := h hclass
    rw [hparts]
    exact hrest
  · exact hrest

theorem checked_of_registerFrom {i : Nat} {outs : List TxOut} (h : registerFrom rand hash i outs eSet = .ok eSet') :
    checkEADScripts (outs.map TxOut.pkScript) = .ok () := by
  induction outs generalizing i eSet with
  | nil => rfl
  | cons out outs ih =>
    rcases eadOf_cases h with ⟨-, hclass, h⟩ | ⟨data, -, -, hparts, h⟩
    · exact checkEADScripts_cons (fun heq => absurd heq hclass) (ih h)
    · obtain ⟨_, -, h⟩ := bind_eq_ok.1 h
      exact checkEADScripts_cons (fun _ => hparts) (ih h)

variable {stxos : List SpentTxOut} {owner : Bytes}

theorem checked_of_removeAll (h : removeAll stxos eSet = .ok eSet') :
    checkEADScripts (stxos.map SpentTxOut.pkScript) = .ok () := by
  induction stxos generalizing eSet with
  | nil => rfl
  | cons input stxos ih =>
    rcases eadOf_cases h with ⟨-, hclass, h⟩ | ⟨data, -, -, hparts, h⟩
    · exact checkEADScripts_cons (fun heq => absurd heq hclass) (ih h)
    · exact checkEADScripts_cons (fun _ => hparts) (ih h)

theorem mem_registerFrom {i : Nat} {outs : List TxOut} (h : registerFrom rand hash i outs eSet = .ok eSet')
    (hmem : owner ∈ eSet) : owner ∈ eSet' := by
  induction outs generalizing i eSet with
  | nil =>
    cases h
    exact hmem
  | cons out outs ih =>
    rcases eadOf_cases h with ⟨-, -, h⟩ | ⟨data, -, -, -, h⟩
    · exact ih h hmem
    · obtain ⟨eSet₁, hadd, h⟩ := bind_eq_ok.1 h
      exact ih h ((EadAddrSet.add_ok hadd).2 owner hmem)

theorem mem_removeAll (h : removeAll stxos eSet = .ok eSet') (hmem : owner ∈ eSet) : owner ∈ eSet' := by
  induction stxos generalizing eSet with
  | nil =>
    cases h
    exact hmem
  | cons input stxos ih =>
    rcases eadOf_cases h with ⟨-, -, h⟩ | ⟨data, -, -, -, h⟩
    · exact ih h hmem
    · exact ih h (EadAddrSet.mem_remove hmem)

variable [DecidableEq H] [ChainHash H] {view view' : EadViewpoint H} {tx : MsgTx H} {height : Int}
  {stxos stxos' : Option (List SpentTxOut)}

structure EadConnected (rand : OutPoint H → Nat) (view : EadViewpoint H) (tx : MsgTx H)
    (stxos' : Option (List SpentTxOut)) (view' : EadViewpoint H) : Prop where
  kept : isCoinBase tx ∨ tx.swapTx → view'.eadAddresses = view.eadAddresses
  updated : ¬isCoinBase tx → ¬tx.swapTx → ∃ eSet,
    (if tx.version = txVerEADAction then view.connectEADTransaction rand tx else .ok view.eadAddresses) = .ok eSet ∧
      disconnectEADAddresses eSet stxos' = .ok view'.eadAddresses

theorem connectTransaction_ok (h : view.connectTransaction rand tx height stxos = .ok (view', stxos')) :
    view.toUtxoViewpoint.connectTransaction tx height stxos = .ok (view'.toUtxoViewpoint, stxos') ∧
      EadConnected rand view tx stxos' view' := by
  unfold connectTransaction at h
  unfold UtxoViewpoint.connectTransaction
  split at h
  · next hcb =>
    cases h
    exact ⟨if_pos hcb, fun _ => rfl, fun hnot => absurd hcb hnot⟩
  next hcb =>
  rw [if_neg hcb]
  split at h
  · next hswap =>
    simp only [bind_eq_ok, pure_eq_ok, Prod.exists, Prod.mk.injEq] at h
    obtain ⟨entries, _, hconn, rfl, rfl⟩ := h
    exact ⟨(if_pos hswap).trans hconn, fun _ => rfl, fun _ hnot => absurd hswap hnot⟩
  next hswap =>
  rw [if_neg hswap]
  simp only [bind_eq_ok, pure_eq_ok, Prod.exists, Prod.mk.injEq] at h
  obtain ⟨eSet, hadd, entries, stxos₁, hspend, eSet', hremove, rfl, rfl⟩ := h
  refine ⟨?_, fun hor => absurd hor (by simp [hcb, hswap]), fun _ _ => ⟨eSet, hadd, hremove⟩⟩
  have hchecked : checkWhen (tx.version = txVerEADAction) (view.toUtxoViewpoint.connectEADTransaction tx) = .ok () := by
    rw [checkWhen_eq_ok]
    intro hversion
    rw [if_pos hversion, connectEADTransaction] at hadd
    unfold UtxoViewpoint.connectEADTransaction
    split at hadd
    · next hbeacon =>
      rw [if_pos hbeacon]
      exact checked_of_registerFrom hadd
    · next hbeacon => rw [if_neg hbeacon]
  have hremoved : UtxoViewpoint.disconnectEADAddresses stxos₁ = .ok () := by
    cases stxos₁ with
    | none => rfl
    | some stxos => exact checked_of_removeAll hremove
  simp only [bind_eq_ok, exists_unit, pure_eq_ok, Prod.exists, Prod.mk.injEq]
  exact ⟨hchecked, entries, stxos₁, hspend, hremoved, rfl, rfl⟩

theorem EadConnected.mem (h : EadConnected rand view tx stxos view') (hmem : owner ∈ view.eadAddresses) :
    owner ∈ view'.eadAddresses := by
  by_cases hkept : isCoinBase tx ∨ tx.swapTx
  · rwa [h.kept hkept]
  · rw [not_or] at hkept
    obtain ⟨eSet, hadd, hremove⟩ := h.updated hkept.1 hkept.2
    have hadded : owner ∈ eSet := by
      unfold connectEADTransaction at hadd
      split at hadd
      · split at hadd
        · exact mem_registerFrom hadd hmem
        · cases hadd
          exact hmem
      · cases hadd
        exact hmem
    cases stxos with
    | none =>
      cases hremove
      exact hadded
    | some stxos => exact mem_removeAll hremove hadded

omit [Primitives] [IPParser] [ChainHash H] in
theorem fetchUtxosMain_ok {db : UtxoSet H} {rows : EadRows H} {outpoints : List (OutPoint H)}
    (h : view.fetchUtxosMain db rows outpoints = .ok view') :
    view'.toUtxoViewpoint = view.toUtxoViewpoint.fetchUtxosMain db outpoints ∧
      (outpoints = [] → view'.eadAddresses = view.eadAddresses) ∧
      (outpoints ≠ [] → view.beacon → fetchAllEADAddresses rows = .ok view'.eadAddresses) := by
  unfold fetchUtxosMain at h
  split at h
  · next hnil =>
    cases h
    subst hnil
    exact ⟨rfl, fun _ => rfl, fun hne => absurd rfl hne⟩
  · next hne =>
    simp only [ok_rules] at h
    obtain ⟨data, hdata, rfl⟩ := h
    refine ⟨rfl, fun hnil => absurd hnil hne, fun _ hbeacon => ?_⟩
    rwa [if_pos hbeacon] at hdata

end EadViewpoint
end Connect

end Jaxnetd.Chaindata

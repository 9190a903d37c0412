import TollGate.Lib.CTypes

/-!
# Sending from the wallet

`nucula_wallet_send` takes proofs out of one of the wallets, swaps them at the mint for new ones
of the wanted amount and hands these out as a token. The Cashu library is not part of the
firmware; `Library` has the functions that are called and `Library.Lawful` what they promise.

A swap cannot be taken back: from then on the old proofs are worth nothing. The function still
has two ways to fail after it, and on both the new proofs are dropped. The amount is cast to
an `int` on the way to the library. `wallet_send_conserves_iff` says exactly when money is
conserved.
-/

namespace TollGate

namespace Wallet

/-! ### Proofs and wallets -/

/-- `cashu::Proof`. -/
structure Proof where
  amount : ℕ
  secret : CStr
deriving DecidableEq

/-- `cashu::Keyset`. -/
structure Keyset where
  active : Bool
  unit : CStr

/-- `cashu::Wallet`, with the flag of its slot. -/
structure CashuWallet where
  mintUrl : CStr
  keysets : List Keyset
  keysetsLoaded : Bool
  proofs : List Proof

/-- `cashu::Token`. -/
structure Token where
  mint : CStr
  unit : CStr
  proofs : List Proof

/-- What a swap gives: the new proofs, the change and the fee of the mint. -/
structure Swap where
  newProofs : List Proof
  change : List Proof
  fee : ℕ

/-- The functions of the library. -/
structure Library where
  loadKeysets : CashuWallet → Option (List Keyset)
  selectProofs : List Proof → Int32 → Option (List Proof × List Proof)
  swap : List Proof → Int32 → CStr → Option Swap
  serializeTokenV3 : Token → CStr

/-- The wallets in their slots, and the proofs that the mints do not take any more. -/
structure Purse where
  wallets : List (Option CashuWallet)
  spent : Proof → Bool

/-- The amount of some proofs. -/
def worth (proofs : List Proof) : ℕ := (proofs.map Proof.amount).sum

/-- `balance()`. -/
def CashuWallet.balance (w : CashuWallet) : Int32 := Int32.ofNat (worth w.proofs)

/-- `nucula_wallet_balance`. -/
def Purse.balance (s : Purse) : UInt64 :=
  s.wallets.foldl (fun total w => total + (w.map fun w => w.balance.toInt64.toUInt64).getD 0) 0

/-- The proofs in some slots. -/
def slotProofs (wallets : List (Option CashuWallet)) : List Proof :=
  wallets.flatMap fun w => (w.map CashuWallet.proofs).getD []

/-- The proofs of all wallets. -/
def Purse.proofs (s : Purse) : List Proof := slotProofs s.wallets

/-- What can be spent. -/
def Purse.spendable (s : Purse) : ℕ := worth (s.proofs.filter fun p => !s.spent p)

/-- The mint takes some proofs. -/
def spend (spent : Proof → Bool) (inputs : List Proof) : Proof → Bool := fun p =>
  spent p || p ∈ inputs

/-! ### The source operations -/

/-- `find_wallet_for_send`: the slot and the wallet in it. -/
def Purse.findWalletForSend (s : Purse) (amount : Int32) : Option (ℕ × CashuWallet) :=
  let i := (s.wallets.findIdx? fun w =>
    (w.map fun w => decide (w.balance ≥ amount)).getD false).getD 0
  (s.wallets[i]?.bind id).map fun w => (i, w)

/-- `ensure_keysets`. -/
def ensureKeysets (lib : Library) (w : CashuWallet) : CashuWallet × Bool :=
  if w.keysetsLoaded then (w, true)
  -- keysets may have come another way
  else if !w.keysets.isEmpty then ({ w with keysetsLoaded := true }, true)
  else match lib.loadKeysets w with
    | some keysets => ({ w with keysets := keysets, keysetsLoaded := true }, true)
    | none => (w, false)

/-- `wallet_unit`: that of the first active keyset. -/
def CashuWallet.unit (w : CashuWallet) : CStr :=
  ((w.keysets.find? Keyset.active).map Keyset.unit).getD (cstr "sat")

/-- The swap that was made, and for which wallet. -/
structure Exchange where
  slot : ℕ
  wallet : CashuWallet
  selected : List Proof
  remaining : List Proof
  swap : Swap

/-- `(int)amount_sat`. -/
def intAmount (amountSat : UInt64) : Int32 := amountSat.toUInt32.toInt32

/-- `nucula_wallet_send` up to the swap. -/
def exchange (lib : Library) (s : Purse) (amountSat : UInt64) : Purse × Option Exchange :=
  match s.findWalletForSend (intAmount amountSat) with
  | none => (s, none)
  | some (slot, w) =>
    let r := ensureKeysets lib w
    let s := { s with wallets := s.wallets.set slot (some r.1) }
    if !r.2 then (s, none)
    else match lib.selectProofs r.1.proofs (intAmount amountSat) with
      | none => (s, none)
      | some (selected, remaining) =>
        match lib.swap selected (intAmount amountSat) r.1.unit with
        | none => (s, none)
        | some swap =>
          -- from here on the selected proofs are worth nothing
          ({ s with spent := spend s.spent selected }, some ⟨slot, r.1, selected, remaining, swap⟩)

/-- The token of the new proofs. -/
def Exchange.token (x : Exchange) : Token := ⟨x.wallet.mintUrl, x.wallet.unit, x.swap.newProofs⟩

/-- The wallet with its change. -/
def Exchange.walletAfter (x : Exchange) : CashuWallet :=
  { x.wallet with proofs := x.remaining ++ x.swap.change }

/-- What the caller gets: the token, its text, and the fee that was paid. -/
structure Sent where
  token : Token
  encoded : CStr
  fee : ℕ

/-- `nucula_wallet_send`, into a buffer of `size` bytes. -/
def nuculaWalletSend (lib : Library) (s : Purse) (amountSat : UInt64) (size : ℕ) :
    Purse × Option Sent :=
  match exchange lib s amountSat with
  | (s, none) => (s, none)
  | (s, some x) =>
    let encoded := lib.serializeTokenV3 x.token
    -- the two exits on which the new proofs and the change are dropped
    if encoded = [] then (s, none)
    else if encoded.length ≥ size then (s, none)
    else ({ s with wallets := s.wallets.set x.slot (some x.walletAfter) },
      some ⟨x.token, encoded, x.swap.fee⟩)

/-! ### What the library promises -/

/-- The promises of the library towards a purse: a selection divides the proofs, a swap gives the
value of its inputs, the new proofs of the amount that was asked for, only for proofs that were
not spent, and the change it gives is new. -/
structure Library.Lawful (lib : Library) (s : Purse) : Prop where
  select : ∀ proofs amount selected remaining,
    lib.selectProofs proofs amount = some (selected, remaining) →
      (selected ++ remaining).Perm proofs
  value : ∀ inputs amount unit x, lib.swap inputs amount unit = some x →
    worth x.newProofs + worth x.change + x.fee = worth inputs
  amount : ∀ inputs amount unit x, lib.swap inputs amount unit = some x → 0 ≤ amount →
    worth x.newProofs = amount.toNatClampNeg
  unspent : ∀ inputs amount unit x, lib.swap inputs amount unit = some x →
    ∀ p ∈ inputs, s.spent p = false
  fresh : ∀ inputs amount unit x, lib.swap inputs amount unit = some x →
    x.change.Nodup ∧ ∀ p ∈ x.change, s.spent p = false ∧ p ∉ s.proofs

/-- No proof is there twice, and the balance of a wallet fits an `int`. -/
structure Purse.Valid (s : Purse) : Prop where
  distinct : s.proofs.Nodup
  bounded : ∀ w, some w ∈ s.wallets → worth w.proofs < 2 ^ 31

/-- A send conserves money: a token is worth what was asked for and what can be spent falls by that
and the fee, and without a token what can be spent is as before. -/
def Conserves (s : Purse) (amountSat : UInt64) (r : Purse × Option Sent) : Prop :=
  match r.2 with
  | some sent => worth sent.token.proofs = amountSat.toNat ∧
      r.1.spendable + amountSat.toNat + sent.fee = s.spendable
  | none => r.1.spendable = s.spendable

/-! ### Counting what can be spent -/

@[simp] theorem worth_append (a b : List Proof) : worth (a ++ b) = worth a + worth b := by
  rw [worth, List.map_append, List.sum_append]
  rfl

theorem worth_perm {a b : List Proof} (h : a.Perm b) : worth a = worth b :=
  (h.map Proof.amount).sum_eq

section Count

variable {spent : Proof → Bool} {selected rest all : List Proof}

theorem filter_unspent_self (h : ∀ p ∈ all, spent p = false) :
    all.filter (fun p => !spent p) = all :=
  List.filter_eq_self.mpr fun p hp => by rw [h p hp]; rfl

/-- Spending changes nothing for other proofs. -/
theorem filter_spend_of_disjoint (h : ∀ p ∈ rest, p ∉ selected) :
    rest.filter (fun p => !spend spent selected p) = rest.filter fun p => !spent p := by
  refine List.filter_congr fun p hp => ?_
  simp [spend, h p hp]

theorem filter_spend_self : selected.filter (fun p => !spend spent selected p) = [] := by
  refine List.filter_eq_nil_iff.mpr fun p hp => ?_
  simp [spend, hp]

/-- What could be spent before a swap of some of the proofs. -/
theorem worth_unspent (hperm : all.Perm (selected ++ rest))
    (hunspent : ∀ p ∈ selected, spent p = false) :
    worth (all.filter fun p => !spent p) =
      worth selected + worth (rest.filter fun p => !spent p) := by
  rw [worth_perm (hperm.filter _), List.filter_append, worth_append, filter_unspent_self hunspent]

/-- What can be spent of the same proofs afterwards. -/
theorem worth_after_spend (hperm : all.Perm (selected ++ rest)) (hdistinct : all.Nodup) :
    worth (all.filter fun p => !spend spent selected p) =
      worth (rest.filter fun p => !spent p) := by
  have hdisjoint : ∀ p ∈ rest, p ∉ selected := fun p hp hp' =>
    (List.nodup_append'.mp (hperm.nodup_iff.mp hdistinct)).2.2 hp' hp
  -- of the selected proofs nothing is left, and the others are as before
  rw [worth_perm (hperm.filter _), List.filter_append, filter_spend_self, List.nil_append,
    filter_spend_of_disjoint hdisjoint]

end Count

/-! ### The steps of a send -/

@[simp] theorem proofs_ensureKeysets (lib : Library) (w : CashuWallet) :
    (ensureKeysets lib w).1.proofs = w.proofs := by
  unfold ensureKeysets
  split
  · rfl
  · split
    · rfl
    · split <;> rfl

theorem findWalletForSend_get {s : Purse} {amount : Int32} {slot : ℕ} {w : CashuWallet}
    (h : s.findWalletForSend amount = some (slot, w)) : s.wallets[slot]? = some (some w) := by
  unfold Purse.findWalletForSend at h
  dsimp only at h
  generalize (s.wallets.findIdx? _).getD 0 = i at h
  rw [Option.map_eq_some_iff] at h
  obtain ⟨w', hget, heq⟩ := h
  obtain ⟨rfl, rfl⟩ := Prod.mk.inj heq
  obtain ⟨w'', hget, rfl⟩ := Option.bind_eq_some_iff.mp hget
  exact hget

/-- The proofs of a slot that is written, and those of the other slots. -/
theorem slotProofs_set_perm {wallets : List (Option CashuWallet)} {slot : ℕ}
    (h : slot < wallets.length) (w : CashuWallet) :
    (slotProofs (wallets.set slot (some w))).Perm
      (w.proofs ++ slotProofs (wallets.eraseIdx slot)) := by
  rw [List.set_eq_take_append_cons_drop, if_pos h, List.eraseIdx_eq_take_drop_succ]
  unfold slotProofs
  rw [List.flatMap_append, List.flatMap_cons, List.flatMap_append]
  exact List.perm_append_comm_assoc _ _ _

theorem slotProofs_perm {wallets : List (Option CashuWallet)} {slot : ℕ} {w : CashuWallet}
    (h : wallets[slot]? = some (some w)) :
    (slotProofs wallets).Perm (w.proofs ++ slotProofs (wallets.eraseIdx slot)) := by
  obtain ⟨hlt, hget⟩ := List.getElem?_eq_some_iff.mp h
  have hself : wallets.set slot (some w) = wallets := by
    rw [← hget, List.set_getElem_self]
  have hset := slotProofs_set_perm hlt w
  rwa [hself] at hset

/-- The same proofs are in the same slots. -/
structure SameProofs (s' s : Purse) : Prop where
  slots : s'.wallets.map (Option.map CashuWallet.proofs) =
    s.wallets.map (Option.map CashuWallet.proofs)
  spent : s'.spent = s.spent

theorem SameProofs.proofs {s' s : Purse} (h : SameProofs s' s) : s'.proofs = s.proofs := by
  have hproofs : ∀ s : Purse, s.proofs =
      (s.wallets.map (Option.map CashuWallet.proofs)).flatMap fun proofs => proofs.getD [] := by
    intro s
    rw [List.flatMap_map]
    rfl
  rw [hproofs, hproofs, h.slots]

theorem SameProofs.spendable {s' s : Purse} (h : SameProofs s' s) : s'.spendable = s.spendable := by
  unfold Purse.spendable
  rw [h.proofs, h.spent]

theorem SameProofs.valid {s' s : Purse} (h : SameProofs s' s) (hvalid : s.Valid) : s'.Valid := by
  refine ⟨h.proofs ▸ hvalid.distinct, ?_⟩
  intro w hw
  have hmem : some w.proofs ∈ s.wallets.map (Option.map CashuWallet.proofs) := by
    rw [← h.slots]
    exact List.mem_map.mpr ⟨some w, hw, rfl⟩
  obtain ⟨slot, hslot, heq⟩ := List.mem_map.mp hmem
  obtain ⟨w', rfl, hproofs⟩ := Option.map_eq_some_iff.mp heq
  rw [← hproofs]
  exact hvalid.bounded w' hslot

/-- A wallet is put back with the same proofs. -/
theorem sameProofs_set {s : Purse} {slot : ℕ} {w w' : CashuWallet}
    (hget : s.wallets[slot]? = some (some w)) (hproofs : w'.proofs = w.proofs) :
    SameProofs ⟨s.wallets.set slot (some w'), s.spent⟩ s := by
  obtain ⟨hlt, hget⟩ := List.getElem?_eq_some_iff.mp hget
  refine ⟨?_, rfl⟩
  rw [List.map_set, Option.map_some, hproofs, ← Option.map_some, ← hget, ← List.map_set,
    List.set_getElem_self]

/-- The proofs of a wallet of the purse were divided and swapped. -/
structure Exchange.Made (x : Exchange) (lib : Library) (s : Purse) (amountSat : UInt64)
    (w : CashuWallet) : Prop where
  get : s.wallets[x.slot]? = some (some w)
  proofs : x.wallet.proofs = w.proofs
  select : lib.selectProofs w.proofs (intAmount amountSat) = some (x.selected, x.remaining)
  swap : lib.swap x.selected (intAmount amountSat) x.wallet.unit = some x.swap

/-- A send gets as far as the swap, or it fails and changes no proof. -/
theorem exchange_cases (lib : Library) (s : Purse) (amountSat : UInt64) :
    (∃ s', exchange lib s amountSat = (s', none) ∧ SameProofs s' s) ∨
      ∃ w x, x.Made lib s amountSat w ∧
        exchange lib s amountSat =
          (⟨s.wallets.set x.slot (some x.wallet), spend s.spent x.selected⟩, some x) := by
  unfold exchange
  cases hfind : s.findWalletForSend (intAmount amountSat) with
  | none => exact .inl ⟨s, rfl, rfl, rfl⟩
  | some found =>
    obtain ⟨slot, w⟩ := found
    have hget := findWalletForSend_get hfind
    -- the keysets of the wallet may be new, its proofs are the same
    have hsame := sameProofs_set hget (proofs_ensureKeysets lib w)
    dsimp only
    split
    · exact .inl ⟨_, rfl, hsame⟩
    · split
      · exact .inl ⟨_, rfl, hsame⟩
      next selected remaining hselect =>
        split
        · exact .inl ⟨_, rfl, hsame⟩
        next swap hswap =>
          rw [proofs_ensureKeysets] at hselect
          exact .inr ⟨w, ⟨slot, (ensureKeysets lib w).1, selected, remaining, swap⟩,
            ⟨hget, proofs_ensureKeysets lib w, hselect, hswap⟩, rfl⟩

/-- The text of the token is there and has room in the buffer. -/
def Exchange.Fits (x : Exchange) (lib : Library) (size : ℕ) : Prop :=
  lib.serializeTokenV3 x.token ≠ [] ∧ (lib.serializeTokenV3 x.token).length < size

instance (x : Exchange) (lib : Library) (size : ℕ) : Decidable (x.Fits lib size) :=
  inferInstanceAs (Decidable (_ ∧ _))

/-- After the swap, the token is handed out and the wallet gets the change exactly if the text of
the token fits. -/
theorem nuculaWalletSend_of_exchange {lib : Library} {s s' : Purse} {amountSat : UInt64}
    {x : Exchange} (h : exchange lib s amountSat = (s', some x)) (size : ℕ) :
    (x.Fits lib size ∧ nuculaWalletSend lib s amountSat size =
        (⟨s'.wallets.set x.slot (some x.walletAfter), s'.spent⟩,
          some ⟨x.token, lib.serializeTokenV3 x.token, x.swap.fee⟩)) ∨
      ¬ x.Fits lib size ∧ nuculaWalletSend lib s amountSat size = (s', none) := by
  unfold nuculaWalletSend Exchange.Fits
  rw [h]
  dsimp only
  split
  next hempty => exact .inr ⟨fun hfits => hfits.1 hempty, rfl⟩
  next hsome =>
    split
    next hlong => exact .inr ⟨fun hfits => absurd hfits.2 (Nat.not_lt.mpr hlong), rfl⟩
    next hroom => exact .inl ⟨⟨hsome, Nat.lt_of_not_ge hroom⟩, rfl⟩

section Made

variable {lib : Library} {s : Purse} {amountSat : UInt64} {w : CashuWallet} {x : Exchange}

/-- The proofs before the swap: the selected ones, the rest of the wallet, and the other slots. -/
theorem Exchange.Made.perm (h : x.Made lib s amountSat w) (hlaw : lib.Lawful s) :
    s.proofs.Perm (x.selected ++ (x.remaining ++ slotProofs (s.wallets.eraseIdx x.slot))) := by
  rw [← List.append_assoc]
  refine (slotProofs_perm h.get).trans ?_
  exact (hlaw.select _ _ _ _ h.select).symm.append_right _

/-- The proofs when the change is in the wallet. -/
theorem Exchange.Made.perm_after (h : x.Made lib s amountSat w) :
    (slotProofs (s.wallets.set x.slot (some x.walletAfter))).Perm
      ((x.remaining ++ slotProofs (s.wallets.eraseIdx x.slot)) ++ x.swap.change) := by
  obtain ⟨hlt, -⟩ := List.getElem?_eq_some_iff.mp h.get
  refine (slotProofs_set_perm hlt x.walletAfter).trans ?_
  rw [Exchange.walletAfter, List.append_assoc, List.append_assoc]
  exact List.perm_append_comm.append_left _

/-- The wallet is put back as it was before the swap. -/
theorem Exchange.Made.proofs_dropped (h : x.Made lib s amountSat w) :
    slotProofs (s.wallets.set x.slot (some x.wallet)) = s.proofs :=
  (sameProofs_set h.get h.proofs).proofs

theorem Exchange.Made.spendable_before (h : x.Made lib s amountSat w) (hlaw : lib.Lawful s) :
    s.spendable = worth x.selected +
      worth ((x.remaining ++ slotProofs (s.wallets.eraseIdx x.slot)).filter fun p => !s.spent p) :=
  worth_unspent (h.perm hlaw) (hlaw.unspent _ _ _ _ h.swap)

/-- When the new proofs are dropped, the selected ones are lost. -/
theorem Exchange.Made.spendable_dropped (h : x.Made lib s amountSat w) (hvalid : s.Valid)
    (hlaw : lib.Lawful s) :
    Purse.spendable ⟨s.wallets.set x.slot (some x.wallet), spend s.spent x.selected⟩ +
      worth x.selected = s.spendable := by
  have hafter : Purse.spendable ⟨s.wallets.set x.slot (some x.wallet), spend s.spent x.selected⟩ =
      worth ((x.remaining ++ slotProofs (s.wallets.eraseIdx x.slot)).filter
        fun p => !s.spent p) := by
    rw [Purse.spendable, Purse.proofs, h.proofs_dropped]
    exact worth_after_spend (h.perm hlaw) hvalid.distinct
  rw [hafter, h.spendable_before hlaw, Nat.add_comm]

/-- When the token is handed out, the wallet has the change for them. -/
theorem Exchange.Made.spendable_kept (h : x.Made lib s amountSat w) (hvalid : s.Valid)
    (hlaw : lib.Lawful s) :
    Purse.spendable ⟨s.wallets.set x.slot (some x.walletAfter), spend s.spent x.selected⟩ +
      worth x.swap.newProofs + x.swap.fee = s.spendable := by
  have hall := h.perm hlaw
  -- the change is neither spent nor one of the selected proofs
  have hfresh : ∀ p ∈ x.swap.change, spend s.spent x.selected p = false := by
    intro p hp
    obtain ⟨hnew, hother⟩ := (hlaw.fresh _ _ _ _ h.swap).2 p hp
    have hnot : p ∉ x.selected := fun hsel =>
      hother (hall.symm.subset (List.mem_append_left _ hsel))
    simp [spend, hnew, hnot]
  have hdisjoint : ∀ p ∈ x.remaining ++ slotProofs (s.wallets.eraseIdx x.slot),
      p ∉ x.selected := fun p hp hp' =>
    (List.nodup_append'.mp (hall.nodup_iff.mp hvalid.distinct)).2.2 hp' hp
  have hafter : Purse.spendable ⟨s.wallets.set x.slot (some x.walletAfter),
      spend s.spent x.selected⟩ =
      worth ((x.remaining ++ slotProofs (s.wallets.eraseIdx x.slot)).filter
        fun p => !s.spent p) + worth x.swap.change := by
    rw [Purse.spendable, Purse.proofs, worth_perm (h.perm_after.filter _), List.filter_append,
      worth_append, filter_spend_of_disjoint hdisjoint, filter_unspent_self hfresh]
  set rest := x.remaining ++ slotProofs (s.wallets.eraseIdx x.slot)
  calc _ = worth (rest.filter fun p => !s.spent p) +
        (worth x.swap.newProofs + worth x.swap.change + x.swap.fee) := by
          rw [hafter]
          ring
    _ = worth (rest.filter fun p => !s.spent p) + worth x.selected := by
          rw [hlaw.value _ _ _ _ h.swap]
    _ = s.spendable := by rw [h.spendable_before hlaw, Nat.add_comm]

/-- What a wallet has after a swap, and what the swap gave away, fits an `int`. -/
theorem Exchange.Made.bounded (h : x.Made lib s amountSat w) (hvalid : s.Valid)
    (hlaw : lib.Lawful s) :
    worth x.remaining + (worth x.swap.newProofs + worth x.swap.change + x.swap.fee) < 2 ^ 31 := by
  calc worth x.remaining + (worth x.swap.newProofs + worth x.swap.change + x.swap.fee)
      = worth x.remaining + worth x.selected := by rw [hlaw.value _ _ _ _ h.swap]
    _ = worth (x.selected ++ x.remaining) := by rw [worth_append, Nat.add_comm]
    _ = worth w.proofs := worth_perm (hlaw.select _ _ _ _ h.select)
    _ < 2 ^ 31 := hvalid.bounded w (List.mem_of_getElem? h.get)

/-- A purse in which the change was put is still valid. -/
theorem Exchange.Made.valid_kept (h : x.Made lib s amountSat w) (hvalid : s.Valid)
    (hlaw : lib.Lawful s) :
    Purse.Valid ⟨s.wallets.set x.slot (some x.walletAfter), spend s.spent x.selected⟩ := by
  have hall := h.perm hlaw
  refine ⟨?_, ?_⟩
  · -- the change is new, and there once
    obtain ⟨hnodup, hfresh⟩ := hlaw.fresh _ _ _ _ h.swap
    refine h.perm_after.nodup_iff.mpr (List.nodup_append'.mpr ⟨?_, hnodup, ?_⟩)
    · exact (List.nodup_append'.mp (hall.nodup_iff.mp hvalid.distinct)).2.1
    · intro p hp hp'
      exact (hfresh p hp').2 (hall.symm.subset (List.mem_append_right _ hp))
  · intro w' hw'
    rcases List.mem_or_eq_of_mem_set hw' with hother | hself
    · exact hvalid.bounded w' hother
    · -- the change is worth no more than what was swapped
      have hbound := h.bounded hvalid hlaw
      rw [Option.some.inj hself, Exchange.walletAfter, worth_append]
      omega

/-- The new proofs are worth what was asked for exactly if the cast keeps the amount. -/
theorem worth_newProofs_iff (h : x.Made lib s amountSat w) (hvalid : s.Valid)
    (hlaw : lib.Lawful s) :
    worth x.swap.newProofs = amountSat.toNat ↔ amountSat.toNat < 2 ^ 31 := by
  refine ⟨?_, ?_⟩
  · -- the new proofs come out of one wallet, whose balance fits an `int`
    intro hworth
    have hbound := h.bounded hvalid hlaw
    omega
  · intro hsmall
    have hlow : amountSat.toUInt32.toNat = amountSat.toNat := by
      rw [UInt64.toNat_toUInt32]
      exact Nat.mod_eq_of_lt (by omega)
    have hint : (intAmount amountSat).toInt = amountSat.toNat := by
      change amountSat.toUInt32.toBitVec.toInt = _
      rw [BitVec.toInt_eq_toNat_of_lt, UInt32.toNat_toBitVec, hlow]
      rw [UInt32.toNat_toBitVec, hlow]
      omega
    have hnonneg : 0 ≤ intAmount amountSat := by
      rw [Int32.le_iff_toInt_le, hint]
      exact Int.natCast_nonneg _
    rw [hlaw.amount _ _ _ _ h.swap hnonneg, Int32.toNatClampNeg, hint]
    exact Int.toNat_natCast _

end Made

/-- What a send does to the purse: without a swap nothing, with one the token is handed out if its
text fits, and else the selected proofs are lost. -/
theorem nuculaWalletSend_cases {lib : Library} {s : Purse} (hvalid : s.Valid) (hlaw : lib.Lawful s)
    (amountSat : UInt64) (size : ℕ) :
    ((exchange lib s amountSat).2 = none ∧
        ∃ s', nuculaWalletSend lib s amountSat size = (s', none) ∧ s'.Valid ∧
          s'.spendable = s.spendable) ∨
      ∃ w x, x.Made lib s amountSat w ∧ (exchange lib s amountSat).2 = some x ∧
        ((x.Fits lib size ∧ ∃ s', nuculaWalletSend lib s amountSat size =
              (s', some ⟨x.token, lib.serializeTokenV3 x.token, x.swap.fee⟩) ∧ s'.Valid ∧
              s'.spendable + worth x.token.proofs + x.swap.fee = s.spendable) ∨
          ¬ x.Fits lib size ∧ ∃ s', nuculaWalletSend lib s amountSat size = (s', none) ∧ s'.Valid ∧
            s'.spendable + worth x.selected = s.spendable) := by
  rcases exchange_cases lib s amountSat with ⟨s', hexchange, hsame⟩ | ⟨w, x, hmade, hexchange⟩
  · have hsend : nuculaWalletSend lib s amountSat size = (s', none) := by
      unfold nuculaWalletSend
      rw [hexchange]
    exact .inl ⟨by rw [hexchange], s', hsend, hsame.valid hvalid, hsame.spendable⟩
  · refine .inr ⟨w, x, hmade, by rw [hexchange], ?_⟩
    rcases nuculaWalletSend_of_exchange hexchange size with ⟨hfits, hsend⟩ | ⟨hfits, hsend⟩
    · -- the wallet is written twice: as it was found, and with the change
      rw [List.set_set] at hsend
      exact .inl ⟨hfits, _, hsend, hmade.valid_kept hvalid hlaw, hmade.spendable_kept hvalid hlaw⟩
    · have hvalid' := (sameProofs_set hmade.get hmade.proofs).valid hvalid
      exact .inr ⟨hfits, _, hsend, ⟨hvalid'.distinct, hvalid'.bounded⟩,
        hmade.spendable_dropped hvalid hlaw⟩

/-- **Exactly when a send conserves money.** For every purse, amount and buffer, and a library that
keeps its promises: whenever the swap is made, the text of the token fits and the amount is below
`2 ^ 31`, or it does not fit and what was swapped is worth nothing. -/
theorem wallet_send_conserves_iff (lib : Library) (s : Purse) (amountSat : UInt64) (size : ℕ)
    (hvalid : s.Valid) (hlaw : lib.Lawful s) :
    Conserves s amountSat (nuculaWalletSend lib s amountSat size) ↔
      ∀ x, (exchange lib s amountSat).2 = some x →
        (x.Fits lib size ∧ amountSat.toNat < 2 ^ 31) ∨
          (¬ x.Fits lib size ∧ worth x.selected = 0) := by
  rcases nuculaWalletSend_cases hvalid hlaw amountSat size with
    ⟨hnone, s', hsend, -, hsame⟩ | ⟨w, x, hmade, hsome, hrest⟩
  · rw [hnone, hsend]
    exact iff_of_true hsame fun x hx => absurd hx (by simp)
  · have hamount := worth_newProofs_iff hmade hvalid hlaw
    rw [hsome]
    simp only [Option.some.injEq, forall_eq']
    rcases hrest with ⟨hfits, s', hsend, -, hkept⟩ | ⟨hfits, s', hsend, -, hdropped⟩
    · rw [hsend, Conserves]
      simp only [hfits, true_and, not_true, false_and, or_false]
      refine ⟨fun h => hamount.mp h.1, fun h => ?_⟩
      have hworth := hamount.mpr h
      change worth x.token.proofs = _ at hworth
      exact ⟨hworth, hworth ▸ hkept⟩
    · rw [hsend, Conserves]
      simp only [hfits, false_and, not_false_eq_true, true_and, false_or]
      omega

/-- A proof of 64 sats. -/
def bigProof : Proof := ⟨64, cstr "a"⟩

/-- A purse with this proof only. -/
def samplePurse : Purse :=
  ⟨[some ⟨cstr "https://mint", [⟨true, cstr "sat"⟩], true, [bigProof]⟩], fun _ => false⟩

/-- What the mint gives for it when 21 sats are asked for. -/
def sampleSwap : Swap where
  newProofs := [⟨16, cstr "b"⟩, ⟨4, cstr "c"⟩, ⟨1, cstr "d"⟩]
  change := [⟨32, cstr "e"⟩, ⟨8, cstr "f"⟩, ⟨2, cstr "g"⟩, ⟨1, cstr "h"⟩]
  fee := 0

/-- The library when some proofs are swapped for 21 sats. A proof takes a hundred bytes of a token's
text. -/
def swapLibrary (given : List Proof) (made : Swap) : Library where
  loadKeysets := fun _ => none
  selectProofs proofs amount :=
    if 0 ≤ amount ∧ amount.toNatClampNeg ≤ worth proofs then some (proofs, []) else none
  swap inputs amount _ := if inputs = given ∧ amount = 21 then some made else none
  serializeTokenV3 token := cstr "cashuA" ++ List.replicate (100 * token.proofs.length) 65

/-- The library on this purse. -/
def sampleLibrary : Library := swapLibrary [bigProof] sampleSwap

theorem samplePurse_valid : samplePurse.Valid := by
  refine ⟨by decide, ?_⟩
  intro w hw
  simp only [samplePurse, List.mem_singleton, Option.some.injEq] at hw
  rw [hw]
  decide

theorem swapLibrary_lawful {s : Purse} {given : List Proof} {made : Swap}
    (hvalue : worth made.newProofs + worth made.change + made.fee = worth given)
    (hamount : worth made.newProofs = 21) (hunspent : ∀ p ∈ given, s.spent p = false)
    (hfresh : made.change.Nodup ∧ ∀ p ∈ made.change, s.spent p = false ∧ p ∉ s.proofs) :
    (swapLibrary given made).Lawful s := by
  have hswap : ∀ inputs amount unit x, (swapLibrary given made).swap inputs amount unit = some x →
      inputs = given ∧ amount = 21 ∧ x = made := by
    intro inputs amount unit x h
    simp only [swapLibrary, Option.ite_none_right_eq_some, Option.some.injEq] at h
    exact ⟨h.1.1, h.1.2, h.2.symm⟩
  refine ⟨?_, ?_, ?_, ?_, ?_⟩
  · intro proofs amount selected remaining h
    simp only [swapLibrary, Option.ite_none_right_eq_some, Option.some.injEq, Prod.mk.injEq] at h
    rw [← h.2.1, ← h.2.2, List.append_nil]
  · intro inputs amount unit x h
    obtain ⟨rfl, -, rfl⟩ := hswap _ _ _ _ h
    exact hvalue
  · intro inputs amount unit x h _
    obtain ⟨-, rfl, rfl⟩ := hswap _ _ _ _ h
    exact hamount
  · intro inputs amount unit x h
    obtain ⟨rfl, -, -⟩ := hswap _ _ _ _ h
    exact hunspent
  · intro inputs amount unit x h
    obtain ⟨-, -, rfl⟩ := hswap _ _ _ _ h
    exact hfresh

theorem sampleLibrary_lawful : sampleLibrary.Lawful samplePurse :=
  swapLibrary_lawful (by decide) (by decide) (by decide) (by decide)

/-- The token does not fit a buffer of 256 bytes, and the 64 sats are gone. -/
theorem swapped_proofs_dropped :
    samplePurse.Valid ∧ sampleLibrary.Lawful samplePurse ∧
      ¬ Conserves samplePurse 21 (nuculaWalletSend sampleLibrary samplePurse 21 256) := by
  refine ⟨samplePurse_valid, sampleLibrary_lawful, ?_⟩
  have hfailed : (nuculaWalletSend sampleLibrary samplePurse 21 256).2.isSome = false := by
    decide +kernel
  have hlost : (nuculaWalletSend sampleLibrary samplePurse 21 256).1.spendable ≠
      samplePurse.spendable := by
    decide +kernel
  generalize nuculaWalletSend sampleLibrary samplePurse 21 256 = r at hfailed hlost ⊢
  intro h
  unfold Conserves at h
  split at h
  next sent hsent => simp [hsent] at hfailed
  next => exact hlost h

/-- In a buffer of 2048 bytes it fits. -/
theorem wallet_send_conserves_sample :
    Conserves samplePurse 21 (nuculaWalletSend sampleLibrary samplePurse 21 2048) := by
  rw [wallet_send_conserves_iff sampleLibrary samplePurse 21 2048 samplePurse_valid
    sampleLibrary_lawful]
  have hfits : ∀ x ∈ (exchange sampleLibrary samplePurse 21).2, x.Fits sampleLibrary 2048 := by
    decide +kernel
  intro x hx
  exact .inl ⟨hfits x hx, by decide⟩

end Wallet

end TollGate

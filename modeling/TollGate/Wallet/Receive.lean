import TollGate.Lib.CText
import TollGate.Wallet.Send

/-!
# Receiving into the wallet

`nucula_wallet_receive` decodes a token, picks one of the wallets for it and hands it over; the
wallet swaps the proofs at its own mint. A wallet is picked by its url: the first one that contains
the url of the token's mint, or is contained in it. Where there is none, the first wallet is tried.

That is a fallback by intention, so that a token of an unknown mint is handed to the first slot
(`fallback_to_first`). `receive_hands_over` says where a token goes otherwise. Decoding and the
swap are the library's.
-/

namespace TollGate

namespace Wallet

open CStr

/-! ### The source operations -/

/-- The functions of the library that receiving needs besides the others: the token in a text, and
the wallet with the proofs that a swap gave. -/
structure ReceiveLibrary extends Library where
  deserializeTokenV3 : CStr → Option Token
  receive : CashuWallet → Token → CashuWallet × Option (List Proof)

/-- The test of `find_wallet_for_token`. -/
def CashuWallet.answersTo (w : CashuWallet) (tok : Token) : Bool :=
  w.mintUrl ≠ [] && ((strstr w.mintUrl tok.mint).isSome || (strstr tok.mint w.mintUrl).isSome)

/-- `find_wallet_for_token`: the slot and the wallet in it. -/
def Purse.findWalletForToken (s : Purse) (tok : Token) : Option (ℕ × CashuWallet) :=
  let i := (s.wallets.findIdx? fun w => (w.map (·.answersTo tok)).getD false).getD 0
  (s.wallets[i]?.bind id).map fun w => (i, w)

/-- A token that is handed to a wallet. -/
structure Handed where
  slot : ℕ
  wallet : CashuWallet
  token : Token

/-- `nucula_wallet_receive` up to the call of the wallet's `receive`. -/
def handOver (lib : ReceiveLibrary) (s : Purse) (tokenStr : Option CStr) : Purse × Option Handed :=
  if s.wallets = [] then (s, none)
  else match tokenStr with
    | none => (s, none)
    | some text =>
      match if (cstr "cashuA").isPrefixOf text then lib.deserializeTokenV3 text else none with
      | none => (s, none)
      | some tok =>
        match s.findWalletForToken tok with
        | none => (s, none)
        | some (slot, w) =>
          let r := ensureKeysets lib.toLibrary w
          let s := { s with wallets := s.wallets.set slot (some r.1) }
          if !r.2 then (s, none) else (s, some ⟨slot, r.1, tok⟩)

/-- `nucula_wallet_receive`. -/
def nuculaWalletReceive (lib : ReceiveLibrary) (s : Purse) (tokenStr : Option CStr) :
    Purse × Bool :=
  match handOver lib s tokenStr with
  | (s, none) => (s, false)
  | (s, some h) =>
    let r := lib.receive h.wallet h.token
    ({ s with wallets := s.wallets.set h.slot (some r.1) }, r.2.isSome)

/-! ### Where a token is meant to go -/

/-- The token goes to a wallet of its own mint, and to none where there is none. -/
def HandsHome (lib : ReceiveLibrary) (s : Purse) (tokenStr : Option CStr) : Prop :=
  ∀ h, (handOver lib s tokenStr).2 = some h → h.wallet.mintUrl = h.token.mint

/-- One of the urls contains the other one. -/
def CashuWallet.RelatedTo (w : CashuWallet) (mint : CStr) : Prop :=
  w.mintUrl ≠ [] ∧ (w.mintUrl <:+: mint ∨ mint <:+: w.mintUrl)

/-- A token goes to a wallet of its own mint, if there is one with no merely related one before it.
Where no wallet is related it goes to the first slot. -/
structure HandedByDesign (s : Purse) (h : Handed) : Prop where
  home : ∀ (i : ℕ) (w : CashuWallet), s.wallets[i]? = some (some w) → w.mintUrl ≠ [] →
    w.mintUrl = h.token.mint →
    (∀ j < i, ∀ w' : CashuWallet, s.wallets[j]? = some (some w') → w'.RelatedTo h.token.mint →
      w'.mintUrl = h.token.mint) →
    h.wallet.mintUrl = h.token.mint
  fallback : (∀ w : CashuWallet, some w ∈ s.wallets → ¬w.RelatedTo h.token.mint) → h.slot = 0

/-! ### The wallet that is picked -/

variable {lib : ReceiveLibrary} {s : Purse} {tokenStr : Option CStr} {tok : Token} {slot : ℕ}
  {w : CashuWallet}

theorem answersTo_iff : w.answersTo tok = true ↔ w.RelatedTo tok.mint := by
  unfold CashuWallet.answersTo CashuWallet.RelatedTo
  rw [Bool.and_eq_true, Bool.or_eq_true, isSome_strstr, isSome_strstr, decide_eq_true_iff]

@[simp] theorem mintUrl_ensureKeysets (lib : Library) (w : CashuWallet) :
    (ensureKeysets lib w).1.mintUrl = w.mintUrl := by
  unfold ensureKeysets
  split
  · rfl
  · split
    · rfl
    · split <;> rfl

/-- A slot holds a related wallet. -/
def Purse.Relates (s : Purse) (mint : CStr) (i : ℕ) : Prop :=
  ∃ w, s.wallets[i]? = some (some w) ∧ w.RelatedTo mint

theorem relates_iff {i : ℕ} (hlt : i < s.wallets.length) :
    (s.wallets[i].map (·.answersTo tok)).getD false = true ↔ s.Relates tok.mint i := by
  unfold Purse.Relates
  rw [List.getElem?_eq_getElem hlt]
  cases s.wallets[i] with
  | none => simp
  | some w => simp [answersTo_iff]

/-- It is the first related one, or the one in the first slot. -/
theorem findWalletForToken_cases (h : s.findWalletForToken tok = some (slot, w)) :
    s.wallets[slot]? = some (some w) ∧
      ((w.RelatedTo tok.mint ∧ ∀ j < slot, ¬s.Relates tok.mint j) ∨
        slot = 0 ∧ ∀ j, ¬s.Relates tok.mint j) := by
  unfold Purse.findWalletForToken at h
  dsimp only at h
  obtain ⟨w', hbind, heq⟩ := Option.map_eq_some_iff.mp h
  obtain ⟨rfl, rfl⟩ := Prod.mk.inj heq
  obtain ⟨_, hget, rfl⟩ := Option.bind_eq_some_iff.mp hbind
  refine ⟨hget, ?_⟩
  cases hfind : s.wallets.findIdx? fun w => (w.map (·.answersTo tok)).getD false with
  | some i =>
    rw [hfind, Option.getD_some] at hget
    obtain ⟨hlt, hpass, hfirst⟩ := List.findIdx?_eq_some_iff_getElem.mp hfind
    obtain ⟨w', hget', hrelated⟩ := (relates_iff hlt).mp hpass
    obtain rfl := Option.some.inj (Option.some.inj (hget'.symm.trans hget))
    refine Or.inl ⟨hrelated, fun j hj hrelates => ?_⟩
    exact hfirst j hj ((relates_iff (hj.trans hlt)).mpr hrelates)
  | none =>
    refine Or.inr ⟨rfl, fun j hrelates => ?_⟩
    have hlt : j < s.wallets.length := (List.getElem?_eq_some_iff.mp hrelates.choose_spec.1).1
    have hfail := List.findIdx?_eq_none_iff.mp hfind _ (List.getElem_mem hlt)
    exact Bool.false_ne_true (hfail.symm.trans ((relates_iff hlt).mpr hrelates))

/-- A token that is handed over was decoded, and a wallet was picked for it. -/
theorem handOver_cases {h : Handed} (hh : (handOver lib s tokenStr).2 = some h) :
    ∃ w, s.findWalletForToken h.token = some (h.slot, w) ∧ h.wallet.mintUrl = w.mintUrl := by
  unfold handOver at hh
  split_ifs at hh
  cases tokenStr with
  | none => exact absurd hh nofun
  | some text =>
    dsimp only at hh
    cases hdecode : (if (cstr "cashuA").isPrefixOf text then lib.deserializeTokenV3 text
      else none) with
    | none =>
      rw [hdecode] at hh
      exact absurd hh nofun
    | some tok =>
      rw [hdecode] at hh
      dsimp only at hh
      cases hfind : s.findWalletForToken tok with
      | none =>
        rw [hfind] at hh
        exact absurd hh nofun
      | some found =>
        obtain ⟨slot, w⟩ := found
        rw [hfind] at hh
        dsimp only at hh
        split_ifs at hh
        obtain rfl := Option.some.inj hh
        exact ⟨w, hfind, mintUrl_ensureKeysets _ _⟩

theorem handedByDesign {h : Handed} (hh : (handOver lib s tokenStr).2 = some h) :
    HandedByDesign s h := by
  obtain ⟨w, hfind, hurl⟩ := handOver_cases hh
  obtain ⟨hget, hplace⟩ := findWalletForToken_cases hfind
  refine ⟨fun i w' hget' hne hmint hfront => ?_, fun hnone => ?_⟩
  · -- a wallet of the mint itself is related
    have hrelates : s.Relates h.token.mint i := ⟨w', hget', hne, Or.inl (hmint ▸ List.infix_rfl)⟩
    rw [hurl]
    rcases hplace with ⟨hrelated, hfirst⟩ | ⟨-, hnone⟩
    · rcases lt_trichotomy h.slot i with hlt | rfl | hgt
      · exact hfront h.slot hlt w hget hrelated
      · rwa [Option.some.inj (Option.some.inj (hget.symm.trans hget'))]
      · exact absurd hrelates (hfirst i hgt)
    · exact absurd hrelates (hnone i)
  · rcases hplace with ⟨hrelated, -⟩ | ⟨hslot, -⟩
    · exact absurd hrelated (hnone w (List.mem_of_getElem? hget))
    · exact hslot

/-- **Tokens go to their own mint's wallet**, for every list of wallets and every token: to one of
the mint, if no merely related one stands before it, and where no wallet is related to the first
slot. Without a wallet a token is handed to none, and a token that is handed to none is not
received. -/
theorem receive_hands_over (lib : ReceiveLibrary) (s : Purse) (tokenStr : Option CStr) :
    (∀ h, (handOver lib s tokenStr).2 = some h → HandedByDesign s h) ∧
      ((∀ w, some w ∉ s.wallets) → (handOver lib s tokenStr).2 = none) ∧
      ((handOver lib s tokenStr).2 = none → (nuculaWalletReceive lib s tokenStr).2 = false) := by
  refine ⟨fun h => handedByDesign, fun hempty => ?_, fun hnone => ?_⟩
  · refine Option.eq_none_iff_forall_ne_some.mpr fun h hh => ?_
    obtain ⟨w, hfind, -⟩ := handOver_cases hh
    exact hempty w (List.mem_of_getElem? (findWalletForToken_cases hfind).1)
  · unfold nuculaWalletReceive
    generalize handOver lib s tokenStr = r at hnone
    obtain ⟨s', handed⟩ := r
    obtain rfl : handed = none := hnone
    rfl

/-- The text of a token of another mint, with a proof of one sat. -/
def strangeText : CStr := cstr "cashuA" ++ (cstr
  "eyJ0b2tlbiI6W3sibWludCI6Imh0dHBzOi8vYi5taW50IiwicHJvb2ZzIjpbeyJhbW91bnQiOjEsImlkIjoiMDA5YTFm" ++
  cstr
  "MjkzMjUzZTQxZSIsInNlY3JldCI6IjNmYTkiLCJDIjoiMDI3OWJlNjY3ZWY5ZGNiYmFjNTVhMDYyOTVjZTg3MGIwNzAy" ++
  cstr "OWJmY2RiMmRjZTI4ZDk1OWYyODE1YjE2ZjgxNzk4In1dfV0sInVuaXQiOiJzYXQifQ==")

/-- What is in it. -/
def strangeToken : Token := ⟨cstr "https://b.mint", cstr "sat", [⟨1, cstr "3fa9"⟩]⟩

/-- `deserialize_token_v3` on it. -/
def readStrange (text : CStr) : Option Token :=
  if text = strangeText then some strangeToken else none

/-- The library. -/
def strangeLibrary : ReceiveLibrary where
  loadKeysets := fun _ => none
  selectProofs := fun _ _ => none
  swap := fun _ _ _ => none
  serializeTokenV3 := fun _ => []
  deserializeTokenV3 := readStrange
  receive w _ := (w, none)

/-- A wallet of one mint. -/
def oneWallet : Purse :=
  ⟨[some ⟨cstr "https://a.mint", [⟨true, cstr "sat"⟩], true, []⟩], fun _ => false⟩

theorem readStrange_strangeText :
    (if (cstr "cashuA").isPrefixOf strangeText then readStrange strangeText else none) =
      some strangeToken := by
  have hprefix : (cstr "cashuA").isPrefixOf strangeText = true :=
    List.isPrefixOf_iff_prefix.mpr (List.prefix_append _ _)
  rw [if_pos hprefix, readStrange, if_pos rfl]

/-- It is handed the token of another one. -/
theorem fallback_to_first : ¬HandsHome strangeLibrary oneWallet (some strangeText) := by
  intro h
  have hwallet : oneWallet.wallets ≠ [] := List.cons_ne_nil _ _
  have hhanded : (handOver strangeLibrary oneWallet (some strangeText)).2 =
      some ⟨0, ⟨cstr "https://a.mint", [⟨true, cstr "sat"⟩], true, []⟩, strangeToken⟩ := by
    unfold handOver
    rw [if_neg hwallet]
    dsimp only [strangeLibrary]
    rw [readStrange_strangeText]
    rfl
  exact absurd (h _ hhanded) (by decide)

end Wallet

end TollGate

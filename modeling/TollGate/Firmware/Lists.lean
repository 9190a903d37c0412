import TollGate.Firmware.Config

/-!
# The lists of the configuration

The loops of `tollgate_config_init` over `wifi_networks`, `accepted_mints`, `nostr_relays` and
`nostr_seed_relays` store an item at the place it has in the array, but count only the items that
they store. After an item that is passed over, the entries below the counter are therefore not
those that were stored: the empty slot counts for one of them, and the last one is lost.

So a list is read as it stands exactly if every item of the right kind fits its field and none
comes after an item of another kind, unless it is as empty as the slot (`lists_without_gaps_iff`).
-/

namespace TollGate

namespace Firmware

open CJson CStr

/-! ### Slots with gaps -/

section Slots

variable {α β : Type} {zero : α}

/-- After the first slot without an entry no entry differs from an empty slot. -/
def Gapless (zero : α) : List (Option α) → Prop
  | [] => True
  | some _ :: slots => Gapless zero slots
  | none :: slots => ∀ a, some a ∈ slots → a = zero

/-- Slots that are moved back by empty ones and still begin with all their entries. -/
theorem eq_zero_of_moved (n : ℕ) {slots : List (Option α)}
    (h : (List.replicate (n + 1) zero ++ slots.map fun slot => slot.getD zero).take
      slots.reduceOption.length = slots.reduceOption) {a : α} (ha : some a ∈ slots) : a = zero := by
  induction slots generalizing n with
  | nil => cases ha
  | cons slot slots ih =>
    cases slot with
    | none =>
      -- an empty slot more in front
      have hfront : List.replicate (n + 1) zero ++
          (none :: slots).map (fun slot => slot.getD zero) =
            List.replicate (n + 1 + 1) zero ++ slots.map fun slot => slot.getD zero := by
        rw [List.replicate_succ' (n := n + 1), List.append_assoc]
        rfl
      rw [hfront, List.reduceOption_cons_of_none] at h
      exact ih (n + 1) h (List.mem_of_ne_of_mem (by simp) ha)
    | some b =>
      rw [List.reduceOption_cons_of_some, List.length_cons, List.replicate_succ, List.cons_append,
        List.take_succ_cons] at h
      -- the entry is the empty slot that comes first, so the next one moves up in its place
      obtain ⟨rfl, hrest⟩ := List.cons.inj h
      have hfront : List.replicate n zero ++
          (some zero :: slots).map (fun slot => slot.getD zero) =
            List.replicate (n + 1) zero ++ slots.map fun slot => slot.getD zero := by
        rw [List.replicate_succ', List.append_assoc]
        rfl
      rw [hfront] at hrest
      rcases List.mem_cons.mp ha with ha | ha
      · exact Option.some.inj ha
      · exact ih n hrest ha

/-- **What is below the counter** is what was stored, exactly if no entry comes after a gap. -/
theorem counted_eq_iff (slots : List (Option α)) :
    counted zero slots = slots.reduceOption ↔ Gapless zero slots := by
  induction slots with
  | nil => exact iff_of_true rfl trivial
  | cons slot slots ih =>
    cases slot with
    | some a =>
      rw [Gapless, ← ih, counted, List.reduceOption_cons_of_some]
      exact List.cons_inj_right a
    | none =>
      rw [Gapless, counted, List.reduceOption_cons_of_none]
      -- the entries are one slot behind where the counter takes them for
      refine ⟨fun h a ha => eq_zero_of_moved 0 h ha, fun hzero => ?_⟩
      -- all slots look the same
      have hslots : (none :: slots).map (fun slot => slot.getD zero) =
          List.replicate (slots.length + 1) zero := by
        refine List.eq_replicate_iff.mpr ⟨by simp, fun b hb => ?_⟩
        obtain ⟨slot, hslot, rfl⟩ := List.mem_map.mp hb
        cases slot with
        | none => rfl
        | some a => exact hzero a (List.mem_of_ne_of_mem (by simp) hslot)
      have hstored : slots.reduceOption = List.replicate slots.reduceOption.length zero :=
        List.eq_replicate_iff.mpr
          ⟨rfl, fun a ha => hzero a (List.reduceOption_mem_iff.mp ha)⟩
      have hle := List.reduceOption_length_le slots
      rw [hslots, List.take_replicate, min_eq_left (by omega)]
      exact hstored.symm

/-- Two readers of which one takes fewer items: they take as many only if they take the same. -/
theorem isSome_of_length_eq {read valid : β → Option α}
    (hvalid : ∀ b a, valid b = some a → read b = some a) {items : List β}
    (h : (items.filterMap valid).length = (items.filterMap read).length) {b : β} (hb : b ∈ items)
    (hread : (read b).isSome) : (valid b).isSome := by
  have hle : ∀ items : List β, (items.filterMap valid).length ≤ (items.filterMap read).length := by
    intro items
    rw [List.length_filterMap_eq_countP, List.length_filterMap_eq_countP]
    refine List.countP_mono_left fun b _ hsome => ?_
    obtain ⟨a, ha⟩ := Option.isSome_iff_exists.mp hsome
    exact Option.isSome_iff_exists.mpr ⟨a, hvalid b a ha⟩
  induction items with
  | nil => cases hb
  | cons c items ih =>
    have hrest := hle items
    rw [List.filterMap_cons, List.filterMap_cons] at h
    rcases hc : valid c with _ | a
    · rcases hr : read c with _ | a
      · rcases List.mem_cons.mp hb with rfl | hb
        · rw [hr] at hread
          cases hread
        · rw [hc, hr] at h
          exact ih h hb
      · -- one item less on the left, and never more later
        rw [hc, hr, List.length_cons] at h
        dsimp only at h
        omega
    · rw [hc, hvalid c a hc, List.length_cons, List.length_cons, Nat.succ_inj] at h
      rcases List.mem_cons.mp hb with rfl | hb
      · exact Option.isSome_iff_exists.mpr ⟨a, hc⟩
      · exact ih h hb

/-- Reading into slots: the entries below the counter are the valid items, exactly if every item
that is stored is valid and none comes after a gap. -/
theorem counted_map_eq_iff {read valid : β → Option α}
    (hvalid : ∀ b a, valid b = some a → read b = some a) (items : List β) :
    counted zero (items.map read) = items.filterMap valid ↔
      (∀ b ∈ items, (read b).isSome → (valid b).isSome) ∧ Gapless zero (items.map valid) := by
  have hreduce : (items.map read).reduceOption = items.filterMap read := List.filterMap_map
  have hsame : (∀ b ∈ items, (read b).isSome → (valid b).isSome) →
      items.map read = items.map valid ∧ items.filterMap read = items.filterMap valid := by
    intro hall
    have heq : ∀ b ∈ items, read b = valid b := by
      intro b hb
      cases hr : read b with
      | none =>
        cases hv : valid b with
        | none => rfl
        | some a => exact absurd ((hvalid b a hv).symm.trans hr) nofun
      | some a =>
        obtain ⟨c, hc⟩ := Option.isSome_iff_exists.mp (hall b hb (by rw [hr]; rfl))
        exact hr.symm.trans ((hvalid b c hc).trans hc.symm)
    exact ⟨List.map_congr_left heq, List.filterMap_congr heq⟩
  refine ⟨fun h => ?_, fun ⟨hall, hgapless⟩ => ?_⟩
  · -- the counter says how many are stored, so none of them is invalid
    have hcount : (counted zero (items.map read)).length = (items.filterMap read).length := by
      have hle := List.reduceOption_length_le (items.map read)
      rw [counted, List.length_take, List.length_map, min_eq_left hle, hreduce]
    have hall : ∀ b ∈ items, (read b).isSome → (valid b).isSome := fun b hb =>
      isSome_of_length_eq hvalid (by rw [← hcount, h]) hb
    refine ⟨hall, ?_⟩
    rw [← (hsame hall).1, ← counted_eq_iff, hreduce, h, (hsame hall).2]
  · rw [← (hsame hall).2, ← hreduce, counted_eq_iff, (hsame hall).1]
    exact hgapless

end Slots

/-! ### Strings -/

/-- The string of an item, if it fits a field of `size` bytes. -/
def fittingText (size : ℕ) (item : Json) : Option CStr :=
  match item.asString with
  | some s => if s.length < size then some s else none
  | none => none

/-- The strings of an array are read as they stand. -/
structure TextsRegular (size : ℕ) (items : List Json) : Prop where
  fits : ∀ s, .string s ∈ items → s.length < size
  gapless : Gapless [] (items.map Json.asString)

theorem fittingText_eq_some {size : ℕ} {item : Json} {s : CStr} :
    fittingText size item = some s ↔ item = .string s ∧ s.length < size := by
  unfold fittingText
  cases item with
  | string t =>
    simp only [Json.asString, Option.ite_none_right_eq_some, Option.some.injEq, Json.string.injEq]
    refine ⟨?_, ?_⟩
    · rintro ⟨hlen, rfl⟩
      exact ⟨rfl, hlen⟩
    · rintro ⟨rfl, hlen⟩
      exact ⟨hlen, rfl⟩
  | _ => simp [Json.asString]

theorem textsAt_eq_iff (j : Json) (name : String) (max size : ℕ) :
    textsAt j name max size = (itemsAt j name max).filterMap (fittingText size) ↔
      TextsRegular size (itemsAt j name max) := by
  generalize hitems : itemsAt j name max = items
  have hvalid : ∀ item s, fittingText size item = some s →
      item.asString.map (strncpy size) = some s := by
    intro item s h
    obtain ⟨rfl, hlen⟩ := fittingText_eq_some.mp h
    exact congrArg some (strncpy_of_length_lt hlen)
  have hfits : (∀ item ∈ items, (item.asString.map (strncpy size)).isSome →
      (fittingText size item).isSome) ↔ ∀ s, .string s ∈ items → s.length < size := by
    refine ⟨fun h s hs => ?_, fun h item hitem hsome => ?_⟩
    · obtain ⟨t, ht⟩ := Option.isSome_iff_exists.mp (h _ hs rfl)
      obtain ⟨heq, hlen⟩ := fittingText_eq_some.mp ht
      rwa [Json.string.inj heq]
    · rw [Option.isSome_map] at hsome
      obtain ⟨s, hs⟩ := Option.isSome_iff_exists.mp hsome
      obtain rfl := Json.asString_eq_some.mp hs
      exact Option.isSome_iff_exists.mpr ⟨s, fittingText_eq_some.mpr ⟨rfl, h s hitem⟩⟩
  -- where all strings fit, the valid items are the strings
  have hsame : (∀ s, .string s ∈ items → s.length < size) →
      items.map (fittingText size) = items.map Json.asString := by
    intro h
    refine List.map_congr_left fun item hitem => ?_
    cases hs : item.asString with
    | none =>
      unfold fittingText
      rw [hs]
    | some s =>
      obtain rfl := Json.asString_eq_some.mp hs
      exact fittingText_eq_some.mpr ⟨rfl, h s hitem⟩
  unfold textsAt
  rw [hitems, counted_map_eq_iff hvalid, hfits]
  refine ⟨fun ⟨hall, hgapless⟩ => ⟨hall, hsame hall ▸ hgapless⟩, fun h => ⟨h.fits, ?_⟩⟩
  rw [hsame h.fits]
  exact h.gapless

/-! ### Networks -/

/-- The network of an item, if it has both members and they fit. -/
def fittingNetwork (net : Json) : Option WifiNetwork :=
  match net.getObjectItem "ssid", net.getObjectItem "password" with
  | some (.string ssid), some (.string pass) =>
    if ssid.length < 32 ∧ pass.length < 64 then some ⟨ssid, pass⟩ else none
  | _, _ => none

/-- What the loop over `wifi_networks` leaves below the counter. -/
def networksAt (root : Json) : Except Fault (List WifiNetwork) := do
  let slots ← (itemsAt root "wifi_networks" maxWifiNetworks).mapM readNetwork
  return counted ⟨[], []⟩ slots

/-- The networks of an array are read as they stand. -/
structure NetworksRegular (items : List Json) : Prop where
  fits : ∀ net ∈ items, (net.getObjectItem "ssid").isSome → (net.getObjectItem "password").isSome →
    (fittingNetwork net).isSome
  gapless : Gapless ⟨[], []⟩ (items.map fittingNetwork)

/-- What an item puts into its slot. -/
def storedNetwork (net : Json) : Option WifiNetwork :=
  match net.getObjectItem "ssid", net.getObjectItem "password" with
  | some (.string ssid), some (.string pass) => some ⟨strncpy 32 ssid, strncpy 64 pass⟩
  | _, _ => none

theorem storedNetwork_of_fitting (net : Json) (network : WifiNetwork)
    (h : fittingNetwork net = some network) : storedNetwork net = some network := by
  unfold fittingNetwork at h
  unfold storedNetwork
  split at h
  · split at h
    next hlen =>
      obtain rfl := Option.some.inj h
      rw [strncpy_of_length_lt hlen.1, strncpy_of_length_lt hlen.2]
    · cases h
  · cases h

/-- No member is taken for a string that is none. -/
def Readable (net : Json) : Prop :=
  (net.getObjectItem "ssid").isSome → (net.getObjectItem "password").isSome →
    (storedNetwork net).isSome

theorem readNetwork_eq_ok_iff (net : Json) (slot : Option WifiNetwork) :
    readNetwork net = .ok slot ↔ Readable net ∧ storedNetwork net = slot := by
  unfold readNetwork Readable storedNetwork
  cases net.getObjectItem "ssid" with
  | none => simp
  | some ssid =>
    cases net.getObjectItem "password" with
    | none => cases ssid <;> simp
    | some pass => cases ssid <;> cases pass <;> simp [Json.asString]

/-- A loop that may stop at an item, and gives a value for each when it does not. -/
theorem mapM_eq_ok_iff {ε α β : Type} {f : α → Except ε β} {P : α → Prop} {g : α → β}
    (hf : ∀ x y, f x = .ok y ↔ P x ∧ g x = y) (xs : List α) (ys : List β) :
    xs.mapM f = .ok ys ↔ (∀ x ∈ xs, P x) ∧ xs.map g = ys := by
  induction xs generalizing ys with
  | nil =>
    show Except.ok [] = Except.ok ys ↔ _
    simp
  | cons x xs ih =>
    rw [List.mapM_cons, bind_eq_ok_iff, List.forall_mem_cons, List.map_cons]
    refine ⟨?_, ?_⟩
    · rintro ⟨y, hy, h⟩
      obtain ⟨ys', hys, h⟩ := bind_eq_ok_iff.mp h
      obtain rfl : y :: ys' = ys := Except.ok.inj h
      obtain ⟨hx, rfl⟩ := (hf x y).mp hy
      obtain ⟨hxs, rfl⟩ := (ih ys').mp hys
      exact ⟨⟨hx, hxs⟩, rfl⟩
    · rintro ⟨⟨hx, hxs⟩, rfl⟩
      refine ⟨g x, (hf x _).mpr ⟨hx, rfl⟩, ?_⟩
      rw [(ih _).mpr ⟨hxs, rfl⟩]
      rfl

theorem networksAt_eq_iff (root : Json) :
    networksAt root =
        .ok ((itemsAt root "wifi_networks" maxWifiNetworks).filterMap fittingNetwork) ↔
      NetworksRegular (itemsAt root "wifi_networks" maxWifiNetworks) := by
  generalize hitems : itemsAt root "wifi_networks" maxWifiNetworks = items
  have hstored : networksAt root = .ok (items.filterMap fittingNetwork) ↔
      (∀ net ∈ items, Readable net) ∧
        counted ⟨[], []⟩ (items.map storedNetwork) = items.filterMap fittingNetwork := by
    unfold networksAt
    rw [hitems, bind_eq_ok_iff]
    simp only [mapM_eq_ok_iff readNetwork_eq_ok_iff]
    refine ⟨?_, fun ⟨hread, h⟩ => ⟨_, ⟨hread, rfl⟩, congrArg Except.ok h⟩⟩
    rintro ⟨slots, ⟨hread, rfl⟩, h⟩
    exact ⟨hread, Except.ok.inj h⟩
  rw [hstored, counted_map_eq_iff storedNetwork_of_fitting]
  refine ⟨fun ⟨hread, hfits, hgapless⟩ => ⟨fun net hnet hssid hpass => ?_, hgapless⟩, fun h => ?_⟩
  · exact hfits net hnet (hread net hnet hssid hpass)
  · have hmembers : ∀ net : Json, (storedNetwork net).isSome →
        (net.getObjectItem "ssid").isSome ∧ (net.getObjectItem "password").isSome := by
      intro net
      unfold storedNetwork
      cases net.getObjectItem "ssid" <;> cases net.getObjectItem "password" <;> simp
    refine ⟨fun net hnet hssid hpass => ?_, fun net hnet hsome => ?_, h.gapless⟩
    · obtain ⟨network, hfit⟩ := Option.isSome_iff_exists.mp (h.fits net hnet hssid hpass)
      exact Option.isSome_iff_exists.mpr ⟨network, storedNetwork_of_fitting net network hfit⟩
    · exact h.fits net hnet (hmembers net hsome).1 (hmembers net hsome).2

/-! ### The four lists -/

/-- Below the counters that the loops leave are the valid ones of the first items, in their
order. -/
structure ReadWithoutGaps (root : Json) : Prop where
  networks : networksAt root =
    .ok ((itemsAt root "wifi_networks" maxWifiNetworks).filterMap fittingNetwork)
  acceptedMints : textsAt root "accepted_mints" 8 256 =
    (itemsAt root "accepted_mints" 8).filterMap (fittingText 256)
  nostrRelays : textsAt root "nostr_relays" 4 128 =
    (itemsAt root "nostr_relays" 4).filterMap (fittingText 128)
  nostrSeedRelays : textsAt root "nostr_seed_relays" 8 128 =
    (itemsAt root "nostr_seed_relays" 8).filterMap (fittingText 128)

/-- The arrays of the file are such that the loops read them as they stand. -/
structure ListsRegular (root : Json) : Prop where
  networks : NetworksRegular (itemsAt root "wifi_networks" maxWifiNetworks)
  acceptedMints : TextsRegular 256 (itemsAt root "accepted_mints" 8)
  nostrRelays : TextsRegular 128 (itemsAt root "nostr_relays" 4)
  nostrSeedRelays : TextsRegular 128 (itemsAt root "nostr_seed_relays" 8)

/-- What the loops leave is what the configuration has, where it is not empty. -/
structure StoredLists (root : Json) (c : TollgateConfig) : Prop where
  networks : ∃ networks, networksAt root = .ok networks ∧
    c.networks = if networks = [] then oldNetwork root else networks
  acceptedMints : c.acceptedMints =
    if textsAt root "accepted_mints" 8 256 = [] then defaultAcceptedMints c.mintUrl
    else textsAt root "accepted_mints" 8 256
  nostrRelays : c.nostrRelays =
    if textsAt root "nostr_relays" 4 128 = [] then defaultRelays
    else textsAt root "nostr_relays" 4 128
  nostrSeedRelays : c.nostrSeedRelays =
    if textsAt root "nostr_seed_relays" 8 128 = [] then defaultSeedRelays
    else textsAt root "nostr_seed_relays" 8 128

theorem storedLists_of_loadConfig {root : Json} {c : TollgateConfig}
    (h : loadConfig root = .ok (some c)) : StoredLists root c := by
  unfold loadConfig at h
  split at h
  · cases h
  · obtain ⟨networks, hnetworks, h⟩ := bind_eq_ok_iff.mp h
    obtain ⟨apPassword, -, h⟩ := bind_eq_ok_iff.mp h
    obtain ⟨mintUrl, -, h⟩ := bind_eq_ok_iff.mp h
    obtain ⟨lnurlUrl, -, h⟩ := bind_eq_ok_iff.mp h
    obtain ⟨nostrGeohash, -, h⟩ := bind_eq_ok_iff.mp h
    obtain rfl := Option.some.inj (Except.ok.inj h)
    obtain ⟨slots, hslots, hnetworks⟩ := bind_eq_ok_iff.mp hnetworks
    refine ⟨⟨counted ⟨[], []⟩ slots, ?_, (Except.ok.inj hnetworks).symm⟩, rfl, rfl, rfl⟩
    unfold networksAt
    rw [hslots]
    rfl

/-- **Exactly when the lists are read without gaps.** -/
theorem lists_without_gaps_iff (root : Json) :
    (ReadWithoutGaps root ↔ ListsRegular root) ∧
      ∀ c, loadConfig root = .ok (some c) → StoredLists root c := by
  refine ⟨⟨fun h => ?_, fun h => ?_⟩, fun c => storedLists_of_loadConfig⟩
  · exact ⟨(networksAt_eq_iff root).mp h.networks, (textsAt_eq_iff _ _ _ _).mp h.acceptedMints,
      (textsAt_eq_iff _ _ _ _).mp h.nostrRelays, (textsAt_eq_iff _ _ _ _).mp h.nostrSeedRelays⟩
  · exact ⟨(networksAt_eq_iff root).mpr h.networks, (textsAt_eq_iff _ _ _ _).mpr h.acceptedMints,
      (textsAt_eq_iff _ _ _ _).mpr h.nostrRelays, (textsAt_eq_iff _ _ _ _).mpr h.nostrSeedRelays⟩

/-! ### A mint behind a number -/

/-- The file of a device that should accept one mint. -/
def gapRoot : Json :=
  .ofMembers [
    ("nsec", some (.string (cstr "01"))),
    ("mint_url", some (.string (cstr "https://a"))),
    ("accepted_mints", some (.array [.number (.ofInt 1), .string (cstr "https://m")]))]

theorem accepted_mint_lost :
    (itemsAt gapRoot "accepted_mints" 8).filterMap (fittingText 256) = [cstr "https://m"] ∧
      textsAt gapRoot "accepted_mints" 8 256 = [[]] ∧
      (∃ c, loadConfig gapRoot = .ok (some c) ∧ c.acceptedMints = [[]]) ∧
      ¬ ReadWithoutGaps gapRoot := by
  have hvalid : (itemsAt gapRoot "accepted_mints" 8).filterMap (fittingText 256) =
      [cstr "https://m"] := by decide
  have hstored : textsAt gapRoot "accepted_mints" 8 256 = [[]] := by decide
  refine ⟨hvalid, hstored, ⟨_, rfl, rfl⟩, fun h => ?_⟩
  have heq := h.acceptedMints
  rw [hvalid, hstored] at heq
  exact absurd heq (by decide)

end Firmware

end TollGate

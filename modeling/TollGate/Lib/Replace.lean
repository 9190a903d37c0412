import TollGate.Lib.CText

/-!
# Replacing keys in a text

A text in which keys stand at some places, and the text with a value in place of each. Where the
occurrences do not overlap (`Replace.NoOverlap`) there is one such text, `Replace.replaced`: the
occurrences have their values there, and the other bytes are kept. It begins with what stands
before the first occurrence and the value of that one (`Replace.replaced_of_first`), so a scan from
left to right builds it.

`Replace.count` counts the occurrences of one key from left to right, each behind the one before,
as a loop over `strstr` does.
-/

namespace Replace

open CStr

/-- A key and its value. -/
structure Sub where
  key : CStr
  val : CStr
deriving DecidableEq

/-- Two occurrences in the text are the same one or lie apart. -/
def NoOverlap (keys : List CStr) (s : CStr) : Prop :=
  ∀ k ∈ keys, ∀ l ∈ keys, ∀ p q : ℕ, k <+: s.drop p → l <+: s.drop q →
    (k = l ∧ p = q) ∨ p + k.length ≤ q ∨ q + l.length ≤ p

/-- What stands in place of the byte at `p`: the value of the key that begins there, nothing
inside of an occurrence, and else the byte itself. -/
def piece (subs : List Sub) (s : CStr) (p : ℕ) : CStr :=
  match subs.find? fun sub => sub.key.isPrefixOf (s.drop p) with
  | some sub => sub.val
  | none =>
    if ∃ q < p, ∃ sub ∈ subs, sub.key <+: s.drop q ∧ p < q + sub.key.length then []
    else (s.drop p).take 1

/-- The text with every occurrence of a key replaced by its value. -/
def replaced (subs : List Sub) (s : CStr) : CStr :=
  (List.range s.length).flatMap (piece subs s)

/-- The number of occurrences, each behind the one before. The first bytes are passed over. -/
def count (key : CStr) : ℕ → CStr → ℕ
  | _, [] => 0
  | skip + 1, _ :: s => count key skip s
  | 0, c :: s =>
    if key.isPrefixOf (c :: s) then count key (key.length - 1) s + 1 else count key 0 s

/-! ### The first occurrence -/

section Strstr

variable {key s found : CStr}

theorem strstr_cons_of_not {c : UInt8} (h : ¬ key <+: c :: s) :
    strstr key (c :: s) = strstr key s := by
  rw [strstr, if_neg (mt List.isPrefixOf_iff_prefix.mp h)]

/-- What `strstr` finds is the first occurrence. -/
theorem exists_of_strstr_eq_some (h : strstr key s = some found) :
    ∃ p ≤ s.length, found = s.drop p ∧ key <+: s.drop p ∧ ∀ q < p, ¬ key <+: s.drop q := by
  induction s with
  | nil =>
    rw [strstr] at h
    split at h
    next hkey =>
      subst hkey
      exact ⟨0, le_rfl, (Option.some.inj h).symm, List.nil_prefix, fun q hq => by omega⟩
    · cases h
  | cons c s ih =>
    by_cases hprefix : key <+: c :: s
    · rw [strstr, if_pos (List.isPrefixOf_iff_prefix.mpr hprefix)] at h
      exact ⟨0, Nat.zero_le _, (Option.some.inj h).symm, hprefix, fun q hq => by omega⟩
    · rw [strstr_cons_of_not hprefix] at h
      obtain ⟨p, hp, rfl, hkey, hfirst⟩ := ih h
      refine ⟨p + 1, Nat.succ_le_succ hp, rfl, hkey, fun q hq => ?_⟩
      cases q with
      | zero => exact hprefix
      | succ q => exact hfirst q (Nat.lt_of_succ_lt_succ hq)

theorem not_prefix_of_strstr_eq_none (h : strstr key s = none) (p : ℕ) :
    ¬ key <+: s.drop p := by
  intro hkey
  have hinfix : key <:+: s := hkey.isInfix.trans (List.drop_suffix p s).isInfix
  rw [← isSome_strstr, h] at hinfix
  cases hinfix

/-- Bytes at which the key does not begin are passed over. -/
theorem count_drop {n : ℕ} (h : ∀ q < n, ¬ key <+: s.drop q) :
    count key 0 (s.drop n) = count key 0 s := by
  induction n generalizing s with
  | zero => rfl
  | succ n ih =>
    cases s with
    | nil => rfl
    | cons c s =>
      have hfirst : ¬ key.isPrefixOf (c :: s) = true :=
        mt List.isPrefixOf_iff_prefix.mp (h 0 (Nat.succ_pos n))
      rw [List.drop_succ_cons, ih fun q hq => h (q + 1) (Nat.succ_lt_succ hq), count,
        if_neg hfirst]

theorem count_skip (key s : CStr) (n : ℕ) : count key n s = count key 0 (s.drop n) := by
  induction n generalizing s with
  | zero => rfl
  | succ n ih =>
    cases s with
    | nil => rfl
    | cons c s => rw [count, ih, List.drop_succ_cons]

theorem count_of_begins (hkey : key ≠ []) (h : key <+: s) :
    count key 0 s = count key 0 (s.drop key.length) + 1 := by
  obtain ⟨k, key, rfl⟩ := List.exists_cons_of_ne_nil hkey
  cases s with
  | nil => exact absurd (List.prefix_nil.mp h) (List.cons_ne_nil k key)
  | cons c s =>
    rw [count, if_pos (List.isPrefixOf_iff_prefix.mpr h), count_skip]
    rfl

theorem count_of_strstr_eq_none (h : strstr key s = none) : count key 0 s = 0 := by
  have hdrop : s.drop s.length = [] := List.drop_length
  rw [← count_drop fun q _ => not_prefix_of_strstr_eq_none h q, hdrop]
  rfl

theorem count_of_strstr_eq_some (hkey : key ≠ []) (h : strstr key s = some found) :
    count key 0 s = count key 0 (found.drop key.length) + 1 := by
  obtain ⟨p, -, rfl, hprefix, hfirst⟩ := exists_of_strstr_eq_some h
  rw [← count_drop hfirst, count_of_begins hkey hprefix]

end Strstr

/-- Only the places inside of the text have to be looked at. -/
theorem noOverlap_of_bounded {keys : List CStr} {s : CStr} (hne : ∀ k ∈ keys, k ≠ [])
    (h : ∀ k ∈ keys, ∀ l ∈ keys, ∀ p < s.length, ∀ q < s.length,
      k.isPrefixOf (s.drop p) = true → l.isPrefixOf (s.drop q) = true →
        (k = l ∧ p = q) ∨ p + k.length ≤ q ∨ q + l.length ≤ p) :
    NoOverlap keys s := by
  have hbound : ∀ k ∈ keys, ∀ p, k <+: s.drop p → p < s.length := by
    intro k hk p hp
    by_contra hle
    rw [List.drop_eq_nil_of_le (Nat.le_of_not_lt hle)] at hp
    exact hne k hk (List.prefix_nil.mp hp)
  exact fun k hk l hl p q hp hq => h k hk l hl p (hbound k hk p hp) q (hbound l hl q hq)
    (List.isPrefixOf_iff_prefix.mpr hp) (List.isPrefixOf_iff_prefix.mpr hq)

/-! ### The replaced text -/

/-- The keys are different and not empty, and their occurrences lie apart. -/
structure Separate (subs : List Sub) (s : CStr) : Prop where
  ne_nil : ∀ sub ∈ subs, sub.key ≠ []
  distinct : (subs.map Sub.key).Nodup
  apart : NoOverlap (subs.map Sub.key) s

/-- The first occurrence of a key in the text. -/
structure First (subs : List Sub) (s : CStr) (p : ℕ) (sub : Sub) : Prop where
  mem : sub ∈ subs
  le : p ≤ s.length
  occurs : sub.key <+: s.drop p
  first : ∀ other ∈ subs, ∀ q < p, ¬ other.key <+: s.drop q

section Replaced

variable {subs : List Sub} {s : CStr} {p : ℕ} {sub : Sub}

theorem Separate.drop (h : Separate subs s) (n : ℕ) : Separate subs (s.drop n) := by
  refine ⟨h.ne_nil, h.distinct, fun k hk l hl p q hp hq => ?_⟩
  rw [List.drop_drop] at hp hq
  rcases h.apart k hk l hl (n + p) (n + q) hp hq with ⟨rfl, hpq⟩ | hpq | hpq
  · exact .inl ⟨rfl, by omega⟩
  · exact .inr (.inl (by omega))
  · exact .inr (.inr (by omega))

/-- Up to the end of the first occurrence there is no other one. -/
theorem First.unique (h : First subs s p sub) (hsep : Separate subs s) {other : Sub}
    (hother : other ∈ subs) {q : ℕ} (hq : q < p + sub.key.length)
    (hoccurs : other.key <+: s.drop q) : other = sub ∧ q = p := by
  have hpos := List.length_pos_of_ne_nil (hsep.ne_nil other hother)
  -- not before it, and what begins inside of it would overlap it
  have hle : p ≤ q := Nat.le_of_not_lt fun hlt => h.first other hother q hlt hoccurs
  rcases hsep.apart other.key (List.mem_map_of_mem hother) sub.key (List.mem_map_of_mem h.mem) q p
    hoccurs h.occurs with ⟨hkey, hqp⟩ | hqp | hqp
  · exact ⟨List.inj_on_of_nodup_map hsep.distinct hother h.mem hkey, hqp⟩
  · omega
  · omega

theorem find?_eq_none_of (h : ∀ sub ∈ subs, ¬ sub.key <+: s.drop p) :
    (subs.find? fun sub => sub.key.isPrefixOf (s.drop p)) = none :=
  List.find?_eq_none.mpr fun sub hsub => mt List.isPrefixOf_iff_prefix.mp (h sub hsub)

/-- A byte before every occurrence. -/
theorem piece_of_before (h : ∀ other ∈ subs, ∀ q ≤ p, ¬ other.key <+: s.drop q) :
    piece subs s p = (s.drop p).take 1 := by
  unfold piece
  rw [find?_eq_none_of fun other hother => h other hother p le_rfl]
  refine if_neg ?_
  rintro ⟨q, hq, other, hother, hoccurs, -⟩
  exact h other hother q hq.le hoccurs

theorem flatMap_bytes (s : CStr) {n : ℕ} (h : n ≤ s.length) :
    (List.range n).flatMap (fun p => (s.drop p).take 1) = s.take n := by
  induction n with
  | zero => rfl
  | succ n ih =>
    have hbyte : (s.drop n).take 1 = [s[n]] := by
      rw [List.drop_eq_getElem_cons h]
      rfl
    rw [List.range_succ, List.flatMap_append, ih (Nat.le_of_succ_le h), List.flatMap_singleton,
      hbyte, List.take_concat_get']

/-- A text without keys stays as it is. -/
theorem replaced_of_none (h : ∀ sub ∈ subs, ∀ p, ¬ sub.key <+: s.drop p) :
    replaced subs s = s := by
  calc replaced subs s = (List.range s.length).flatMap fun p => (s.drop p).take 1 :=
        List.flatMap_congr fun p _ => piece_of_before fun other hother q _ => h other hother q
    _ = s := by rw [flatMap_bytes s le_rfl, List.take_length]

/-- The first occurrence has its value there. -/
theorem First.piece_eq (h : First subs s p sub) (hsep : Separate subs s) :
    piece subs s p = sub.val := by
  have hpos := List.length_pos_of_ne_nil (hsep.ne_nil sub h.mem)
  have hfind : (subs.find? fun other => other.key.isPrefixOf (s.drop p)) = some sub := by
    cases hfound : subs.find? fun other => other.key.isPrefixOf (s.drop p) with
    | none =>
      have hnone := List.find?_eq_none.mp hfound sub h.mem
      exact absurd (List.isPrefixOf_iff_prefix.mpr h.occurs) hnone
    | some other =>
      have hprefix : other.key.isPrefixOf (s.drop p) = true :=
        @List.find?_some _ (fun other : Sub => other.key.isPrefixOf (s.drop p)) other subs hfound
      have hoccurs := List.isPrefixOf_iff_prefix.mp hprefix
      obtain ⟨rfl, -⟩ := h.unique hsep (List.mem_of_find?_eq_some hfound) (by omega) hoccurs
      rfl
  rw [piece, hfind]

/-- Nothing comes in place of the other bytes of the first occurrence. -/
theorem First.piece_inside (h : First subs s p sub) (hsep : Separate subs s) {q : ℕ} (hpq : p < q)
    (hq : q < p + sub.key.length) : piece subs s q = [] := by
  have hnone : ∀ other ∈ subs, ¬ other.key <+: s.drop q := by
    intro other hother hoccurs
    exact hpq.ne' (h.unique hsep hother hq hoccurs).2
  rw [piece, find?_eq_none_of hnone]
  exact if_pos ⟨p, hpq, sub, h.mem, h.occurs, hq⟩

/-- Behind the first occurrence the text is replaced as if it stood alone. -/
theorem First.piece_behind (h : First subs s p sub) (hsep : Separate subs s) (q : ℕ) :
    piece subs s (p + sub.key.length + q) = piece subs (s.drop (p + sub.key.length)) q := by
  have hcovered : (∃ r < p + sub.key.length + q, ∃ other ∈ subs, other.key <+: s.drop r ∧
        p + sub.key.length + q < r + other.key.length) ↔
      ∃ r < q, ∃ other ∈ subs, other.key <+: (s.drop (p + sub.key.length)).drop r ∧
        q < r + other.key.length := by
    refine ⟨?_, ?_⟩
    · rintro ⟨r, hr, other, hother, hoccurs, hlt⟩
      by_cases hbefore : r < p + sub.key.length
      · -- only the first occurrence itself begins there, and it is over
        obtain ⟨rfl, rfl⟩ := h.unique hsep hother hbefore hoccurs
        omega
      · refine ⟨r - (p + sub.key.length), by omega, other, hother, ?_, by omega⟩
        rw [List.drop_drop, Nat.add_sub_cancel' (Nat.le_of_not_lt hbefore)]
        exact hoccurs
    · rintro ⟨r, hr, other, hother, hoccurs, hlt⟩
      rw [List.drop_drop] at hoccurs
      exact ⟨p + sub.key.length + r, by omega, other, hother, hoccurs, by omega⟩
  unfold piece
  simp only [hcovered, List.drop_drop]

/-- **The first occurrence, and what follows it.** -/
theorem replaced_of_first (h : First subs s p sub) (hsep : Separate subs s) :
    replaced subs s =
      s.take p ++ sub.val ++ replaced subs (s.drop (p + sub.key.length)) := by
  have hpos := List.length_pos_of_ne_nil (hsep.ne_nil sub h.mem)
  have hlen : p + sub.key.length ≤ s.length := by
    have hle := h.occurs.length_le
    rw [List.length_drop] at hle
    have hp := h.le
    omega
  -- the places before the occurrence, in it, and behind it
  have hbefore : (List.range p).flatMap (piece subs s) = s.take p := by
    rw [← flatMap_bytes s h.le]
    refine List.flatMap_congr fun q hq => piece_of_before fun other hother r hr => ?_
    exact h.first other hother r (hr.trans_lt (List.mem_range.mp hq))
  have hthere : ((List.range sub.key.length).map (p + ·)).flatMap (piece subs s) = sub.val := by
    obtain ⟨n, hn⟩ := Nat.exists_eq_succ_of_ne_zero hpos.ne'
    rw [hn, List.range_succ_eq_map, List.map_cons, List.flatMap_cons, Nat.add_zero,
      h.piece_eq hsep, List.flatMap_eq_nil_iff.mpr, List.append_nil]
    intro q hq
    obtain ⟨i, hi, rfl⟩ := List.mem_map.mp hq
    obtain ⟨k, hk, rfl⟩ := List.mem_map.mp hi
    have hk := List.mem_range.mp hk
    exact h.piece_inside hsep (by omega) (by omega)
  have hbehind : ((List.range (s.length - (p + sub.key.length))).map
      (p + sub.key.length + ·)).flatMap (piece subs s) =
        replaced subs (s.drop (p + sub.key.length)) := by
    rw [replaced, List.length_drop, List.flatMap_map]
    exact List.flatMap_congr fun q _ => h.piece_behind hsep q
  have hsplit : s.length = p + sub.key.length + (s.length - (p + sub.key.length)) := by omega
  calc replaced subs s
      = (List.range (p + sub.key.length + (s.length - (p + sub.key.length)))).flatMap
          (piece subs s) := by rw [← hsplit, replaced]
    _ = _ := by
      rw [List.range_add, List.range_add, List.flatMap_append, List.flatMap_append, hbefore,
        hthere, hbehind]

/-- There is a first occurrence, or none. -/
theorem none_or_first (hne : ∀ sub ∈ subs, sub.key ≠ []) (s : CStr) :
    (∀ sub ∈ subs, ∀ p, ¬ sub.key <+: s.drop p) ∨ ∃ p sub, First subs s p sub := by
  by_cases hex : ∃ p, ∃ sub ∈ subs, sub.key <+: s.drop p
  · obtain ⟨sub, hsub, hoccurs⟩ := Nat.find_spec hex
    refine .inr ⟨Nat.find hex, sub, hsub, ?_, hoccurs, fun other hother q hq hq' => ?_⟩
    · -- a key that is not empty stands in front of the end
      by_contra hlt
      rw [List.drop_eq_nil_of_le (Nat.le_of_not_le hlt)] at hoccurs
      exact hne sub hsub (List.prefix_nil.mp hoccurs)
    · exact Nat.find_min hex hq ⟨other, hother, hq'⟩
  · exact .inl fun sub hsub p hp => hex ⟨p, sub, hsub, hp⟩

/-! ### Counting over all keys -/

/-- The sum of a quantity over all occurrences. -/
def total (subs : List Sub) (f : Sub → ℕ) (s : CStr) : ℕ :=
  (subs.map fun sub => count sub.key 0 s * f sub).sum

theorem total_of_none (h : ∀ sub ∈ subs, ∀ p, ¬ sub.key <+: s.drop p) (f : Sub → ℕ) :
    total subs f s = 0 := by
  refine List.sum_eq_zero fun n hn => ?_
  obtain ⟨sub, hsub, rfl⟩ := List.mem_map.mp hn
  have hcount : count sub.key 0 s = 0 := by
    have hdrop : s.drop s.length = [] := List.drop_length
    rw [← count_drop fun q _ => h sub hsub q, hdrop]
    rfl
  rw [hcount, Nat.zero_mul]

/-- The first occurrence counts once, for its own key. -/
theorem First.count_eq (h : First subs s p sub) (hsep : Separate subs s) {other : Sub}
    (hother : other ∈ subs) :
    count other.key 0 s =
      count other.key 0 (s.drop (p + sub.key.length)) + if other = sub then 1 else 0 := by
  split
  next heq =>
    subst heq
    rw [← count_drop (h.first other hother), count_of_begins (hsep.ne_nil other hother) h.occurs,
      List.drop_drop]
  next hne =>
    refine (count_drop fun q hq hoccurs => ?_).symm
    exact hne (h.unique hsep hother hq hoccurs).1

theorem First.total_eq (h : First subs s p sub) (hsep : Separate subs s) (f : Sub → ℕ) :
    total subs f s = total subs f (s.drop (p + sub.key.length)) + f sub := by
  have hnodup : subs.Nodup := List.Nodup.of_map _ hsep.distinct
  -- no key is in the list twice, so only one of the summands is not zero
  have hown : ∀ l : List Sub, l.Nodup → sub ∈ l →
      (l.map fun other => (if other = sub then 1 else 0) * f other).sum = f sub := by
    intro l hl hmem
    induction l with
    | nil => cases hmem
    | cons other l ih =>
      obtain ⟨hnot, hl⟩ := List.nodup_cons.mp hl
      rw [List.map_cons, List.sum_cons]
      rcases List.mem_cons.mp hmem with rfl | hmem
      · rw [if_pos rfl, Nat.one_mul, List.sum_eq_zero, Nat.add_zero]
        intro n hn
        obtain ⟨other, hother, rfl⟩ := List.mem_map.mp hn
        have hne : other ≠ sub := ne_of_mem_of_not_mem hother hnot
        rw [if_neg hne, Nat.zero_mul]
      · have hne : other ≠ sub := (ne_of_mem_of_not_mem hmem hnot).symm
        rw [if_neg hne, Nat.zero_mul, Nat.zero_add, ih hl hmem]
  calc total subs f s
      = (subs.map fun other => count other.key 0 (s.drop (p + sub.key.length)) * f other +
          (if other = sub then 1 else 0) * f other).sum := by
        refine congrArg List.sum (List.map_congr_left fun other hother => ?_)
        rw [h.count_eq hsep hother, Nat.add_mul]
    _ = _ := by rw [List.sum_map_add, hown subs hnodup h.mem, total]

/-- **How long the replaced text is.** -/
theorem length_replaced (hsep : Separate subs s) :
    (replaced subs s).length + total subs (fun sub => sub.key.length) s =
      s.length + total subs (fun sub => sub.val.length) s := by
  -- on the length, from behind one occurrence to behind the next
  induction hn : s.length using Nat.strong_induction_on generalizing s with
  | _ n ih =>
    subst hn
    rcases none_or_first hsep.ne_nil s with hnone | ⟨p, sub, h⟩
    · rw [replaced_of_none hnone, total_of_none hnone, total_of_none hnone]
    · have hpos := List.length_pos_of_ne_nil (hsep.ne_nil sub h.mem)
      have hlen := h.occurs.length_le
      rw [List.length_drop] at hlen
      have hp := h.le
      have hshort : (s.drop (p + sub.key.length)).length < s.length := by
        rw [List.length_drop]
        omega
      have hrest := ih _ hshort (hsep.drop (p + sub.key.length)) rfl
      rw [List.length_drop] at hrest
      rw [replaced_of_first h hsep, h.total_eq hsep, h.total_eq hsep, List.length_append,
        List.length_append, List.length_take]
      omega

end Replaced

end Replace

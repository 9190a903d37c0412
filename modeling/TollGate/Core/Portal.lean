import TollGate.Lib.Replace

/-!
# The pages of the captive portal

`tollgate_core_portal_render` and `tollgate_core_portal_template_replace` put values in place of the
keys of a template. Both go over the template twice: the first time they add up, key by key, by how
much the text grows, in a `size_t` of 32 bits in which a value that is shorter than its key wraps
around; the second time they write the text, always going on at the earliest key.

Both passes meet the same occurrences, and what wraps around cancels out, so the memory is as
large as the text, exactly if that is less than the address space (`portal_exact_iff`).
-/

namespace TollGate

namespace Portal

open CStr Replace

/-! ### The source operations -/

/-- The memory that was asked for, and the string that was written. -/
structure Rendered where
  outSize : UInt32
  out : CStr
deriving DecidableEq

/-- The bytes that are written, with the terminator. -/
def Rendered.written (r : Rendered) : ℕ := r.out.length + 1

/-- `strlen`. -/
def strlen (s : CStr) : UInt32 := UInt32.ofNat s.length

/-- The loop that adds up `extra`. It does not end with an empty key; the number of turns is that
of the bytes and one more. -/
def extraLoop (sub : Sub) : ℕ → CStr → UInt32 → Option UInt32
  | 0, _, _ => none
  | turns + 1, p, extra =>
    match strstr sub.key p with
    | none => some extra
    | some found =>
      extraLoop sub turns (found.drop sub.key.length) (extra + (strlen sub.val - strlen sub.key))

/-- The loop that writes the text, in `tollgate_core_portal_template_replace`. -/
def replaceLoop (sub : Sub) : ℕ → CStr → Option CStr
  | 0, _ => none
  | _ + 1, [] => some []
  | turns + 1, c :: p =>
    match strstr sub.key (c :: p) with
    | some found =>
      (replaceLoop sub turns (found.drop sub.key.length)).map fun rest =>
        (c :: p).take ((c :: p).length - found.length) ++ sub.val ++ rest
    | none => some (c :: p)

/-- `tollgate_core_portal_template_replace`, when the memory is there. -/
def tollgateCorePortalTemplateReplace (tpl key val : CStr) : Option Rendered := do
  let extra ← extraLoop ⟨key, val⟩ (tpl.length + 1) tpl 0
  let out ← replaceLoop ⟨key, val⟩ (tpl.length + 1) tpl
  return ⟨strlen tpl + extra + 1, out⟩

/-- A turn of the scan for the earliest key: where it is found, and with which substitution. -/
def earlier (src : CStr) (earliest : Option (CStr × Sub)) (sub : Sub) : Option (CStr × Sub) :=
  match strstr sub.key src with
  | none => earliest
  | some found =>
    match earliest with
    | none => some (found, sub)
    | some (e, ei) => if e.length < found.length then some (found, sub) else some (e, ei)

/-- The loop that writes the text, in `tollgate_core_portal_render`. -/
def renderLoop (subs : List Sub) : ℕ → CStr → Option CStr
  | 0, _ => none
  | _ + 1, [] => some []
  | turns + 1, c :: src =>
    match subs.foldl (earlier (c :: src)) none with
    | some (earliest, sub) =>
      (renderLoop subs turns (earliest.drop sub.key.length)).map fun rest =>
        (c :: src).take ((c :: src).length - earliest.length) ++ sub.val ++ rest
    | none => some (c :: src)

/-- `tollgate_core_portal_render`, when the memory is there. -/
def tollgateCorePortalRender (tpl : CStr) (subs : List Sub) : Option Rendered := do
  let extra ← subs.foldlM (fun extra sub => extraLoop sub (tpl.length + 1) tpl extra) 0
  let out ← renderLoop subs (tpl.length + 1) tpl
  return ⟨strlen tpl + extra + 1, out⟩

/-! ### The first pass -/

theorem extraLoop_eq {sub : Sub} (hkey : sub.key ≠ []) {turns : ℕ} {p : CStr}
    (h : p.length < turns) (extra : UInt32) :
    extraLoop sub turns p extra =
      some (extra + UInt32.ofNat (count sub.key 0 p) * (strlen sub.val - strlen sub.key)) := by
  induction turns generalizing p extra with
  | zero => exact absurd h (Nat.not_lt_zero _)
  | succ turns ih =>
    rw [extraLoop]
    cases hfound : strstr sub.key p with
    | none =>
      rw [count_of_strstr_eq_none hfound]
      simp
    | some found =>
      obtain ⟨q, hq, rfl, hprefix, -⟩ := exists_of_strstr_eq_some hfound
      have hpos := List.length_pos_of_ne_nil hkey
      have hlen := hprefix.length_le
      rw [List.length_drop] at hlen
      have hshort : ((p.drop q).drop sub.key.length).length < turns := by
        rw [List.length_drop, List.length_drop]
        omega
      -- the rest of the text has one occurrence less
      dsimp only
      rw [ih hshort, count_of_strstr_eq_some hkey hfound, UInt32.ofNat_add]
      congr 1
      generalize strlen sub.val - strlen sub.key = d
      generalize UInt32.ofNat (count sub.key 0 ((p.drop q).drop sub.key.length)) = n
      grind

/-- The text grows by the values and shrinks by the keys of all occurrences. -/
theorem extraLoops_eq {subs : List Sub} (hkeys : ∀ sub ∈ subs, sub.key ≠ []) (tpl : CStr)
    (extra : UInt32) :
    subs.foldlM (fun extra sub => extraLoop sub (tpl.length + 1) tpl extra) extra =
      some (extra + (UInt32.ofNat (total subs (fun sub => sub.val.length) tpl) -
        UInt32.ofNat (total subs (fun sub => sub.key.length) tpl))) := by
  induction subs generalizing extra with
  | nil => simp [total]
  | cons sub subs ih =>
    rw [List.forall_mem_cons] at hkeys
    have htotal : ∀ f : Sub → ℕ,
        total (sub :: subs) f tpl = count sub.key 0 tpl * f sub + total subs f tpl := fun f => by
      rw [total, List.map_cons, List.sum_cons, total]
    rw [List.foldlM_cons, extraLoop_eq hkeys.1 (Nat.lt_succ_self _), Option.bind_eq_bind,
      Option.bind_some, ih hkeys.2, htotal, htotal, UInt32.ofNat_add, UInt32.ofNat_mul,
      UInt32.ofNat_add, UInt32.ofNat_mul, strlen, strlen]
    congr 1
    generalize UInt32.ofNat (count sub.key 0 tpl) = n
    grind

/-! ### The second pass -/

/-- What the scan has found among the keys it has seen. -/
def Scanned (src : CStr) (subs : List Sub) : Option (CStr × Sub) → Prop
  | none => ∀ sub ∈ subs, strstr sub.key src = none
  | some (found, sub) => sub ∈ subs ∧ strstr sub.key src = some found ∧
      ∀ other ∈ subs, ∀ found', strstr other.key src = some found' → found'.length ≤ found.length

theorem forall_mem_concat {P : Sub → Prop} {subs : List Sub} {sub : Sub}
    (hall : ∀ other ∈ subs, P other) (hlast : P sub) : ∀ other ∈ subs ++ [sub], P other :=
  List.forall_mem_append.mpr ⟨hall, List.forall_mem_singleton.mpr hlast⟩

/-- One key more. -/
theorem Scanned.earlier {src : CStr} {subs : List Sub} {earliest : Option (CStr × Sub)}
    (h : Scanned src subs earliest) (sub : Sub) :
    Scanned src (subs ++ [sub]) (Portal.earlier src earliest sub) := by
  have hlast : sub ∈ subs ++ [sub] := List.mem_append_right subs List.mem_cons_self
  unfold Portal.earlier
  cases hfound : strstr sub.key src with
  | none =>
    cases earliest with
    | none => exact forall_mem_concat h hfound
    | some best =>
      obtain ⟨hmem, hstr, hall⟩ := h
      refine ⟨List.mem_append_left _ hmem, hstr, forall_mem_concat hall ?_⟩
      rw [hfound]
      exact nofun
  | some found =>
    have hself : ∀ found', strstr sub.key src = some found' → found'.length ≤ found.length := by
      intro found' hstr
      rw [hfound] at hstr
      exact (congrArg List.length (Option.some.inj hstr)).ge
    -- the suffix that is longer begins earlier
    cases earliest with
    | none =>
      refine ⟨hlast, hfound, forall_mem_concat (fun other hother found' hstr => ?_) hself⟩
      rw [h other hother] at hstr
      cases hstr
    | some best =>
      obtain ⟨hmem, hstr, hall⟩ := h
      dsimp only
      split
      next hlt =>
        exact ⟨hlast, hfound, forall_mem_concat
          (fun other hother f hf => (hall other hother f hf).trans hlt.le) hself⟩
      next hle =>
        exact ⟨List.mem_append_left _ hmem, hstr, forall_mem_concat hall
          fun f hf => (hself f hf).trans (Nat.le_of_not_lt hle)⟩

/-- The scan finds the key that begins first. -/
theorem scanned_foldl (src : CStr) (subs : List Sub) :
    Scanned src subs (subs.foldl (earlier src) none) := by
  induction subs using List.reverseRecOn with
  | nil => exact nofun
  | append_singleton subs sub ih =>
    rw [List.foldl_concat]
    exact ih.earlier sub

/-- No other key occurs before. -/
theorem Scanned.first {src found : CStr} {subs : List Sub} {sub : Sub}
    (h : Scanned src subs (some (found, sub))) :
    ∃ p, found = src.drop p ∧ First subs src p sub := by
  obtain ⟨hmem, hfound, hall⟩ := h
  obtain ⟨p, hp, rfl, hprefix, -⟩ := exists_of_strstr_eq_some hfound
  -- a key before would have been found before
  refine ⟨p, rfl, hmem, hp, hprefix, fun other hother q hq hoccurs => ?_⟩
  cases hother' : strstr other.key src with
  | none => exact not_prefix_of_strstr_eq_none hother' q hoccurs
  | some found' =>
    have hle := hall other hother found' hother'
    obtain ⟨r, hr, rfl, -, hearly⟩ := exists_of_strstr_eq_some hother'
    rw [List.length_drop, List.length_drop] at hle
    exact hearly q (by omega) hoccurs

/-- **The loop writes the replaced text.** -/
theorem renderLoop_eq {subs : List Sub} {turns : ℕ} {src : CStr} (hsep : Separate subs src)
    (h : src.length < turns) : renderLoop subs turns src = some (replaced subs src) := by
  induction turns generalizing src with
  | zero => exact absurd h (Nat.not_lt_zero _)
  | succ turns ih =>
    cases src with
    | nil => rfl
    | cons c src =>
      rw [renderLoop]
      -- from here on it does not matter that the text is not empty
      generalize c :: src = src at hsep h ⊢
      have hscanned := scanned_foldl src subs
      cases hscan : subs.foldl (earlier src) none with
      | none =>
        rw [hscan] at hscanned
        refine congrArg some (replaced_of_none fun sub hsub p => ?_).symm
        exact not_prefix_of_strstr_eq_none (hscanned sub hsub) p
      | some earliest =>
        obtain ⟨found, sub⟩ := earliest
        rw [hscan] at hscanned
        obtain ⟨p, rfl, hfirst⟩ := hscanned.first
        have hpos := List.length_pos_of_ne_nil (hsep.ne_nil sub hfirst.mem)
        have hlen := hfirst.occurs.length_le
        rw [List.length_drop] at hlen
        have hshort : (src.drop (p + sub.key.length)).length < turns := by
          rw [List.length_drop]
          omega
        have hplace : src.length - (src.drop p).length = p := by
          rw [List.length_drop]
          omega
        dsimp only
        rw [List.drop_drop, ih (hsep.drop _) hshort, hplace, replaced_of_first hfirst hsep]
        rfl

/-- With one key, which may overlap itself, the two functions write the same. -/
theorem renderLoop_singleton (sub : Sub) (turns : ℕ) (src : CStr) :
    renderLoop [sub] turns src = replaceLoop sub turns src := by
  induction turns generalizing src with
  | zero => rfl
  | succ turns ih =>
    cases src with
    | nil => rfl
    | cons c src =>
      rw [renderLoop, replaceLoop, List.foldl_cons, List.foldl_nil, earlier]
      cases strstr sub.key (c :: src) with
      | none => rfl
      | some found => exact congrArg (Option.map _) (ih _)

/-- How long the text of one key is. -/
theorem replaceLoop_length {sub : Sub} (hkey : sub.key ≠ []) {turns : ℕ} {src : CStr}
    (h : src.length < turns) :
    ∃ out, replaceLoop sub turns src = some out ∧
      out.length + count sub.key 0 src * sub.key.length =
        src.length + count sub.key 0 src * sub.val.length := by
  induction turns generalizing src with
  | zero => exact absurd h (Nat.not_lt_zero _)
  | succ turns ih =>
    cases src with
    | nil => exact ⟨[], rfl, by simp [count]⟩
    | cons c src =>
      rw [replaceLoop]
      generalize c :: src = src at h ⊢
      cases hfound : strstr sub.key src with
      | none => exact ⟨src, rfl, by simp [count_of_strstr_eq_none hfound]⟩
      | some found =>
        rw [count_of_strstr_eq_some hkey hfound]
        obtain ⟨p, hp, rfl, hprefix, -⟩ := exists_of_strstr_eq_some hfound
        have hpos := List.length_pos_of_ne_nil hkey
        have hlen := hprefix.length_le
        rw [List.length_drop] at hlen
        have hrest : ((src.drop p).drop sub.key.length).length =
            src.length - p - sub.key.length := by
          rw [List.length_drop, List.length_drop]
        have hshort : ((src.drop p).drop sub.key.length).length < turns := by omega
        obtain ⟨out, hout, hlength⟩ := ih hshort
        refine ⟨_, congrArg (Option.map _) hout, ?_⟩
        rw [List.length_append, List.length_append, List.length_take, List.length_drop, Nat.add_mul,
          Nat.add_mul]
        rw [hrest] at hlength
        omega

/-! ### The memory -/

/-- The text with its terminator is smaller than the address space: the bytes of the template and
of the values that come in, less those of the keys that go out. -/
def Fits (tpl : CStr) (subs : List Sub) : Prop :=
  tpl.length + total subs (fun sub => sub.val.length) tpl + 1 <
    2 ^ 32 + total subs (fun sub => sub.key.length) tpl

/-- What wraps around in the sum cancels out. -/
theorem outSize_eq {length vals keys : ℕ} {out : CStr} (h : out.length + keys = length + vals) :
    UInt32.ofNat length + (0 + (UInt32.ofNat vals - UInt32.ofNat keys)) + 1 =
      UInt32.ofNat (out.length + 1) := by
  have hwords : UInt32.ofNat out.length + UInt32.ofNat keys =
      UInt32.ofNat length + UInt32.ofNat vals := by
    rw [← UInt32.ofNat_add, h, UInt32.ofNat_add]
  have hone : UInt32.ofNat 1 = 1 := rfl
  rw [UInt32.ofNat_add, hone]
  generalize UInt32.ofNat length = l at hwords ⊢
  generalize UInt32.ofNat vals = v at hwords ⊢
  grind

/-- The memory is asked for as it is needed, in 32 bits. -/
theorem render_eq {tpl : CStr} {subs : List Sub} (hsep : Separate subs tpl) :
    tollgateCorePortalRender tpl subs =
      some ⟨UInt32.ofNat ((replaced subs tpl).length + 1), replaced subs tpl⟩ := by
  rw [← outSize_eq (length_replaced hsep), tollgateCorePortalRender, extraLoops_eq hsep.ne_nil,
    Option.bind_eq_bind, Option.bind_some, renderLoop_eq hsep (Nat.lt_succ_self _)]
  rfl

/-- With one substitution the two functions are one. -/
theorem templateReplace_eq (tpl key val : CStr) :
    tollgateCorePortalTemplateReplace tpl key val = tollgateCorePortalRender tpl [⟨key, val⟩] := by
  unfold tollgateCorePortalTemplateReplace tollgateCorePortalRender
  rw [renderLoop_singleton, List.foldlM_cons]
  simp only [List.foldlM_nil, bind_pure]

theorem total_singleton (sub : Sub) (f : Sub → ℕ) (tpl : CStr) :
    total [sub] f tpl = count sub.key 0 tpl * f sub :=
  Nat.add_zero _

/-- The same for one key, which may overlap itself. -/
theorem render_singleton {sub : Sub} (hkey : sub.key ≠ []) (tpl : CStr) :
    ∃ out : CStr, tollgateCorePortalRender tpl [sub] = some ⟨UInt32.ofNat (out.length + 1), out⟩ ∧
      out.length + count sub.key 0 tpl * sub.key.length =
        tpl.length + count sub.key 0 tpl * sub.val.length := by
  obtain ⟨out, hout, hlength⟩ := replaceLoop_length hkey (Nat.lt_succ_self tpl.length)
  refine ⟨out, ?_, hlength⟩
  rw [← outSize_eq hlength, tollgateCorePortalRender,
    extraLoops_eq (List.forall_mem_singleton.mpr hkey), Option.bind_eq_bind, Option.bind_some,
    renderLoop_singleton, hout, total_singleton, total_singleton]
  rfl

/-- `tollgate_core_portal_render` writes the replaced text and fills its memory. -/
def RenderExact (tpl : CStr) (subs : List Sub) : Prop :=
  ∃ r, tollgateCorePortalRender tpl subs = some r ∧ r.out = replaced subs tpl ∧
    r.written = r.outSize.toNat

/-- `tollgate_core_portal_template_replace` fills its memory, with the text of the other one. -/
def ReplaceExact (tpl key val : CStr) : Prop :=
  ∃ r, tollgateCorePortalTemplateReplace tpl key val = some r ∧ r.written = r.outSize.toNat ∧
    ∃ r', tollgateCorePortalRender tpl [⟨key, val⟩] = some r' ∧ r'.out = r.out

theorem written_eq_iff (n : ℕ) : n + 1 = (UInt32.ofNat (n + 1)).toNat ↔ n + 1 < 2 ^ 32 := by
  rw [UInt32.toNat_ofNat']
  omega

theorem renderExact_iff {tpl : CStr} {subs : List Sub} (hsep : Separate subs tpl) :
    RenderExact tpl subs ↔ Fits tpl subs := by
  have hlength := length_replaced hsep
  have hfits : (replaced subs tpl).length + 1 < 2 ^ 32 ↔ Fits tpl subs := by
    unfold Fits
    omega
  rw [← hfits, ← written_eq_iff, RenderExact, render_eq hsep]
  refine ⟨?_, fun h => ⟨_, rfl, rfl, h⟩⟩
  rintro ⟨r, hr, -, hsize⟩
  obtain rfl := Option.some.inj hr
  exact hsize

theorem replaceExact_iff {key : CStr} (hkey : key ≠ []) (tpl val : CStr) :
    ReplaceExact tpl key val ↔ Fits tpl [⟨key, val⟩] := by
  obtain ⟨out, hrender, hlength⟩ := @render_singleton ⟨key, val⟩ hkey tpl
  have hfits : out.length + 1 < 2 ^ 32 ↔ Fits tpl [⟨key, val⟩] := by
    rw [Fits, total_singleton, total_singleton]
    omega
  rw [← hfits, ← written_eq_iff, ReplaceExact, templateReplace_eq, hrender]
  refine ⟨?_, fun h => ⟨_, rfl, h, _, rfl, rfl⟩⟩
  rintro ⟨r, hr, hsize, -⟩
  obtain rfl := Option.some.inj hr
  exact hsize

/-- **Exactly when a page fills its memory**: rendered with keys that lie apart, and with one key
of any kind. -/
theorem portal_exact_iff {tpl : CStr} {subs : List Sub} (hsep : Separate subs tpl)
    {key : CStr} (hkey : key ≠ []) (val : CStr) :
    (RenderExact tpl subs ↔ Fits tpl subs) ∧
      (ReplaceExact tpl key val ↔ Fits tpl [⟨key, val⟩]) :=
  ⟨renderExact_iff hsep, replaceExact_iff hkey tpl val⟩

theorem portal_exact_two_keys :
    (RenderExact (cstr "$a and $b") [⟨cstr "$a", cstr "one"⟩, ⟨cstr "$b", []⟩] ↔
      Fits (cstr "$a and $b") [⟨cstr "$a", cstr "one"⟩, ⟨cstr "$b", []⟩]) ∧
      (ReplaceExact (cstr "$a and $b") (cstr "$$") (cstr "b") ↔
        Fits (cstr "$a and $b") [⟨cstr "$$", cstr "b"⟩]) :=
  portal_exact_iff ⟨by decide, by decide, noOverlap_of_bounded (by decide) (by decide)⟩
    (by decide) (cstr "b")

/-! ### A page larger than the address space -/

theorem count_replicate (c : UInt8) (n : ℕ) : count [c] 0 (List.replicate n c) = n := by
  induction n with
  | zero => rfl
  | succ n ih =>
    have hprefix : [c] <+: List.replicate (n + 1) c := ⟨List.replicate n c, rfl⟩
    rw [count_of_begins (List.cons_ne_nil c []) hprefix, List.length_singleton, List.drop_replicate,
      Nat.add_sub_cancel, ih]

/-- Occurrences of a single byte lie apart. -/
theorem separate_singleton (c : UInt8) (val s : CStr) : Separate [⟨[c], val⟩] s := by
  refine ⟨List.forall_mem_singleton.mpr (List.cons_ne_nil c []), List.nodup_singleton _, ?_⟩
  intro k hk l hl p q _ _
  rw [List.mem_singleton.mp hk, List.mem_singleton.mp hl, List.length_singleton]
  have hplaces : p = q ∨ p + 1 ≤ q ∨ q + 1 ≤ p := by omega
  exact hplaces.imp_left fun h => ⟨rfl, h⟩

/-- Where the values come to the size of the address space, one byte is asked for. -/
theorem not_exact_of_full {c : UInt8} {n : ℕ} {val : CStr} (h : n * val.length = 2 ^ 32) :
    (∃ r, tollgateCorePortalRender (List.replicate n c) [⟨[c], val⟩] = some r ∧
        r.outSize = 1 ∧ r.written = 2 ^ 32 + 1) ∧
      ¬ RenderExact (List.replicate n c) [⟨[c], val⟩] := by
  have hsep := separate_singleton c val (List.replicate n c)
  have hlength : (replaced [⟨[c], val⟩] (List.replicate n c)).length = 2 ^ 32 := by
    have hlen := length_replaced hsep
    rw [total_singleton, total_singleton, count_replicate, List.length_replicate,
      List.length_singleton, Nat.mul_one] at hlen
    exact Nat.add_right_cancel (hlen.trans ((congrArg (n + ·) h).trans (Nat.add_comm _ _)))
  have hrender := render_eq hsep
  have hwrap : UInt32.ofNat (2 ^ 32 + 1) = 1 := rfl
  rw [hlength, hwrap] at hrender
  refine ⟨⟨_, hrender, rfl, congrArg (· + 1) hlength⟩, ?_⟩
  rintro ⟨r, hr, -, hsize⟩
  obtain rfl := Option.some.inj (hrender.symm.trans hr)
  rw [Rendered.written, hlength] at hsize
  have hone : 2 ^ 32 + 1 = 1 := hsize
  exact absurd hone (by decide)

/-- 65536 keys, each with a value of 65536 bytes. -/
theorem render_overflows :
    Separate [⟨[97], List.replicate 65536 98⟩] (List.replicate 65536 97) ∧
      (∃ r, tollgateCorePortalRender (List.replicate 65536 97)
          [⟨[97], List.replicate 65536 98⟩] = some r ∧
        r.outSize = 1 ∧ r.written = 2 ^ 32 + 1) ∧
      ¬ RenderExact (List.replicate 65536 97) [⟨[97], List.replicate 65536 98⟩] :=
  ⟨separate_singleton 97 _ _, not_exact_of_full (by rw [List.length_replicate]; norm_num)⟩

end Portal

end TollGate

import TollGate.Core.Firewall
import TollGate.Lib.Loop

/-!
# The name in a DNS query

`dns_server_task` of `tollgate_core_dns.c` reads a datagram into `rx_buf`, finds the
end of its first question, and for a client without access prints the name asked for
before it hijacks the answer. The name is read by `parse_dns_name`, which follows
compression pointers wherever they lead.

The receive buffer is a function `rx` from indices to bytes: the first `n` are the
datagram, what is behind them is left over from earlier ones. `nameTurn` is one turn of
the parser's outer loop. The source also records where the first jump left
(`jumped`, `jump_pos`), which nobody reads.

A label costs characters of the name, so at most 255 of them are copied; a pointer
costs nothing. `Dns.parseDnsName_ends_iff` is therefore exact: the loop ends if and
only if the name, followed label by label and pointer by pointer (`NameAt`), never
arrives at an offset from which pointers alone lead back to it (`OnPointerLoop`). The
server does not check this: a question whose name is a pointer to itself is accepted
from anybody (`Dns.selfPointer_never_ends`).
-/

namespace TollGate

namespace Dns

open WhileLoop

/-- `DNS_BUF_SIZE`. -/
abbrev bufSize : ℕ := 512

/-- `sizeof(dns_header_t)`, where the first question starts. -/
abbrev headerSize : ℕ := 12

/-- The size of `qname`. -/
abbrev qnameSize : ℕ := 256

/-- The contents of `rx_buf`, by index. -/
abbrev Buffer := ℕ → UInt8

/-- A big-endian 16-bit field. -/
def field (rx : Buffer) (i : ℕ) : ℕ := (rx i).toNat * 256 + (rx (i + 1)).toNat

/-! ### Accepting a query -/

/-- The scan for the end of the question's name. Every byte counts as a label length.
The first argument bounds the turns; `n` of them are enough (`scanQuestion_stops`). -/
def scanQuestion (rx : Buffer) (n : ℕ) : ℕ → ℕ → ℕ
  | 0, q => q
  | k + 1, q => if q < n ∧ rx q ≠ 0 then scanQuestion rx n k (q + (rx q).toNat + 1) else q

/-- The offset at which the scan of a datagram of `n` bytes stops. -/
def questionEnd (rx : Buffer) (n : ℕ) : ℕ := scanQuestion rx n n headerSize

/-- What `dns_server_task` does with a datagram. -/
inductive Reaction where
  | ignore
  /-- Ask the upstream server with the first `reqLen` bytes. -/
  | forward (reqLen : ℕ)
  /-- Parse the name, then answer with the own address (`qtype` 1) or with a refusal. -/
  | hijack (qtype reqLen : ℕ)
deriving DecidableEq

/-- The body of the loop of `dns_server_task`, for a datagram of `n` bytes from
`clientIp`. -/
def dnsServe (g : Gate) (clientIp : Ip) (rx : Buffer) (n : ℕ) : Reaction :=
  if n < headerSize then .ignore
  -- a response, or no question
  else if field rx 2 &&& 0x8000 ≠ 0 ∨ field rx 4 = 0 then .ignore
  else
    let q := questionEnd rx n
    if q + 5 > n then .ignore
    else if g.isAuthenticated clientIp then .forward (q + 5)
    else .hijack (field rx (q + 1)) (q + 5)

/-- The scan ends where the datagram or the name does. -/
theorem scanQuestion_stops (rx : Buffer) {n k q : ℕ} (h : n ≤ q + k) :
    n ≤ scanQuestion rx n k q ∨ rx (scanQuestion rx n k q) = 0 := by
  induction k generalizing q with
  | zero => exact Or.inl h
  | succ k ih =>
    unfold scanQuestion
    split
    · exact ih (by omega)
    · next hstop =>
      rw [not_and_or, not_lt, not_not] at hstop
      exact hstop

/-! ### Reading the name -/

/-- The loop state of `parse_dns_name`. `out` is what stands before `out_pos`. -/
structure NameState where
  pos : ℕ
  out : CStr
deriving DecidableEq

/-- The two top bits mark a compression pointer. -/
def isPointer (b : UInt8) : Bool := b &&& 0xC0 = 0xC0

/-- Where the pointer at `pos` leads. Its second byte is read without a look at the
length of the datagram. -/
def pointerTarget (rx : Buffer) (pos : ℕ) : ℕ :=
  ((rx pos &&& 0x3F).toNat <<< 8) ||| (rx (pos + 1)).toNat

/-- The inner loop: copy up to `len` bytes of a label, as long as the datagram and the
room for the name (`cap` characters) last. -/
def copyLabel (rx : Buffer) (n cap : ℕ) : ℕ → NameState → NameState
  | 0, st => st
  | len + 1, st =>
    if st.pos < n ∧ st.out.length < cap then
      copyLabel rx n cap len ⟨st.pos + 1, st.out ++ [rx st.pos]⟩
    else st

/-- One turn of the outer loop of `parse_dns_name`. -/
def nameTurn (rx : Buffer) (n outLen : ℕ) (st : NameState) : Option NameState :=
  if st.pos < n ∧ st.out.length < outLen - 1 then
    let len := rx st.pos
    if len = 0 then none
    else if isPointer len then some { st with pos := pointerTarget rx st.pos }
    else
      let out := if 0 < st.out.length ∧ st.out.length < outLen - 1 then st.out ++ [46] else st.out
      some (copyLabel rx n (outLen - 1) len.toNat ⟨st.pos + 1, out⟩)
  else none

/-- Where `parse_dns_name` starts when `dns_server_task` calls it. -/
def nameStart : NameState := ⟨headerSize, []⟩

/-- `parse_dns_name(rx_buf, n, 12, qname, 256)` returns. -/
def ParseDnsNameEnds (rx : Buffer) (n : ℕ) : Prop := Ends (nameTurn rx n qnameSize) nameStart

/-! ### The name as the datagram has it -/

/-- One pointer inside the datagram is followed. -/
def followPointer (rx : Buffer) (n pos : ℕ) : Option ℕ :=
  if pos < n ∧ isPointer (rx pos) then some (pointerTarget rx pos) else none

/-- Pointers alone lead from `pos` back to `pos`. -/
def OnPointerLoop (rx : Buffer) (n pos : ℕ) : Prop :=
  ∃ k, 0 < k ∧ turns (followPointer rx n) pos k = some pos

/-- The separating dot a label is written with behind `t` characters. -/
def dot (t : ℕ) : ℕ := if 0 < t then 1 else 0

/-- The name that starts behind the header goes on at offset `p` once `t` characters of
it were read: whole labels, inside the datagram and short enough to leave room, and
pointers. -/
inductive NameAt (rx : Buffer) (n : ℕ) : ℕ → ℕ → Prop
  | start : NameAt rx n headerSize 0
  | pointer {p t q : ℕ} : NameAt rx n p t → followPointer rx n p = some q → NameAt rx n q t
  | label {p t : ℕ} : NameAt rx n p t → rx p ≠ 0 → isPointer (rx p) = false →
      p + 1 + (rx p).toNat < n → t + dot t + (rx p).toNat < qnameSize - 1 →
      NameAt rx n (p + 1 + (rx p).toNat) (t + dot t + (rx p).toNat)

/-! ### One turn -/

section Turn

variable {rx : Buffer} {n cap len : ℕ} {st st' : NameState}

/-- The inner loop copies some number of bytes, all of them unless the datagram or the
room ends first. -/
theorem copyLabel_spec (rx : Buffer) (n cap len : ℕ) (st : NameState) :
    ∃ j ≤ len, (copyLabel rx n cap len st).pos = st.pos + j ∧
      (copyLabel rx n cap len st).out.length = st.out.length + j ∧
      (j = len ∨ n ≤ st.pos + j ∨ cap ≤ st.out.length + j) ∧
      (0 < j → st.pos + j ≤ n ∧ st.out.length + j ≤ cap) := by
  induction len generalizing st with
  | zero => exact ⟨0, le_rfl, rfl, rfl, Or.inl rfl, fun h => absurd h (lt_irrefl 0)⟩
  | succ len ih =>
    unfold copyLabel
    split
    · next hroom =>
      obtain ⟨j, hj, hpos, hout, hfull, hle⟩ := ih ⟨st.pos + 1, st.out ++ [rx st.pos]⟩
      simp only [List.length_append, List.length_singleton] at hout hfull hle hpos
      exact ⟨j + 1, by omega, by omega, by omega, by omega, fun _ => by omega⟩
    · next hroom =>
      exact ⟨0, Nat.zero_le _, rfl, rfl, Or.inr (by omega), fun h => absurd h (lt_irrefl 0)⟩

/-- **What a turn can do.** It follows a pointer and writes nothing; or it copies a label,
whole or up to the end of the datagram or of the room. -/
theorem nameTurn_cases (h : nameTurn rx n qnameSize st = some st') :
    st.pos < n ∧ st.out.length < qnameSize - 1 ∧
      ((followPointer rx n st.pos = some st'.pos ∧ st'.out = st.out) ∨
        (rx st.pos ≠ 0 ∧ isPointer (rx st.pos) = false ∧ ∃ j ≤ (rx st.pos).toNat,
          st'.pos = st.pos + 1 + j ∧ st'.out.length = st.out.length + dot st.out.length + j ∧
          (j = (rx st.pos).toNat ∨ n ≤ st'.pos ∨ qnameSize - 1 ≤ st'.out.length) ∧
          (0 < j → st'.pos ≤ n ∧ st'.out.length ≤ qnameSize - 1))) := by
  unfold nameTurn at h
  split at h
  · next hguard =>
    refine ⟨hguard.1, hguard.2, ?_⟩
    dsimp only at h
    split at h
    · exact absurd h nofun
    · next hzero =>
      split at h
      · next hptr =>
        obtain rfl := Option.some.inj h
        exact Or.inl ⟨if_pos ⟨hguard.1, hptr⟩, rfl⟩
      · next hptr =>
        obtain rfl := Option.some.inj h
        -- the dot is written unless the name is empty
        have hdot : (if 0 < st.out.length ∧ st.out.length < qnameSize - 1 then st.out ++ [46]
            else st.out).length = st.out.length + dot st.out.length := by
          unfold dot
          by_cases hpos : 0 < st.out.length
          · rw [if_pos ⟨hpos, hguard.2⟩, if_pos hpos, List.length_append, List.length_singleton]
          · rw [if_neg fun hb => hpos hb.1, if_neg hpos, Nat.add_zero]
        obtain ⟨j, hj, hpos, hout, hfull, hle⟩ := copyLabel_spec rx n (qnameSize - 1)
          (rx st.pos).toNat ⟨st.pos + 1, if 0 < st.out.length ∧ st.out.length < qnameSize - 1 then
            st.out ++ [46] else st.out⟩
        dsimp only at hpos hout hfull hle
        rw [hdot] at hout hfull hle
        refine Or.inr ⟨hzero, by rwa [Bool.not_eq_true] at hptr, j, hj, hpos, hout, ?_, ?_⟩
        · rw [hpos, hout]
          exact hfull
        · rw [hpos, hout]
          exact hle
  · exact absurd h nofun

theorem length_le_of_nameTurn (h : nameTurn rx n qnameSize st = some st') :
    st.out.length ≤ st'.out.length := by
  obtain ⟨-, -, ⟨-, hout⟩ | ⟨-, -, j, -, -, hout, -⟩⟩ := nameTurn_cases h
  · rw [hout]
  · omega

/-- A turn after which the loop goes on has read a whole label or a pointer. -/
theorem NameAt.turn (h : NameAt rx n st.pos st.out.length)
    (hturn : nameTurn rx n qnameSize st = some st') (hpos : st'.pos < n)
    (hout : st'.out.length < qnameSize - 1) : NameAt rx n st'.pos st'.out.length := by
  obtain ⟨-, -, ⟨hptr, heq⟩ | ⟨hzero, hlabel, j, -, hpos', hout', hfull, -⟩⟩ :=
    nameTurn_cases hturn
  · rw [heq]
    exact h.pointer hptr
  · obtain rfl : j = (rx st.pos).toNat := by omega
    rw [hpos'] at hpos ⊢
    rw [hout'] at hout ⊢
    exact h.label hzero hlabel hpos hout

/-- A turn that wrote nothing, and after which the loop goes on, has followed a
pointer. -/
theorem followPointer_of_nameTurn (h : nameTurn rx n qnameSize st = some st')
    (heq : st'.out.length = st.out.length) (hpos : st'.pos < n)
    (hout : st'.out.length < qnameSize - 1) : followPointer rx n st.pos = some st'.pos := by
  obtain ⟨-, -, ⟨hptr, -⟩ | ⟨hzero, -, j, -, hpos', hout', hfull, -⟩⟩ := nameTurn_cases h
  · exact hptr
  · -- a label has at least one byte, and it was copied
    have hlen : (rx st.pos).toNat ≠ 0 := fun h0 => hzero (UInt8.toNat_inj.mp h0)
    omega

end Turn

/-! ### Whole runs -/

section Runs

variable {rx : Buffer} {n j k : ℕ} {st st' : NameState}

/-- Positions and lengths stay in bounds, so finitely many states are reached. -/
theorem reached_finite (rx : Buffer) (n : ℕ) :
    {st | ∃ k, turns (nameTurn rx n qnameSize) nameStart k = some st}.Finite := by
  have hbound : ∀ k st, turns (nameTurn rx n qnameSize) nameStart k = some st →
      st.pos ≤ 2 ^ 14 + n ∧ st.out.length ≤ qnameSize := by
    intro k st hk
    refine turns_induction (P := fun st : NameState => st.pos ≤ 2 ^ 14 + n ∧
      st.out.length ≤ qnameSize) ?_ ?_ hk
    · rintro st st' ⟨-, -⟩ hturn
      obtain ⟨hpos, hout, ⟨hptr, heq⟩ | ⟨-, -, j, -, hpos', hout', -, hle⟩⟩ :=
        nameTurn_cases hturn
      · -- a pointer has fourteen bits
        unfold followPointer at hptr
        split at hptr
        · have heqpos : pointerTarget rx st.pos = st'.pos := Option.some.inj hptr
          have htarget : pointerTarget rx st.pos < 2 ^ 14 := by
            have hhigh : (rx st.pos &&& 0x3F).toNat < 2 ^ 6 := by
              rw [UInt8.toNat_and]
              exact Nat.and_lt_two_pow _ (by decide)
            have hlow : (rx (st.pos + 1)).toNat < 2 ^ 14 :=
              (rx (st.pos + 1)).toNat_lt.trans (by decide)
            refine Nat.or_lt_two_pow ?_ hlow
            rw [Nat.shiftLeft_eq]
            omega
          exact ⟨by omega, by rw [heq]; omega⟩
        · exact absurd hptr nofun
      · have hdot : dot st.out.length ≤ 1 := by
          unfold dot
          split <;> omega
        rcases Nat.eq_zero_or_pos j with rfl | hj
        · exact ⟨by omega, by omega⟩
        · exact ⟨by have := hle hj; omega, by have := hle hj; omega⟩
    · exact ⟨(by decide : 12 ≤ 2 ^ 14).trans (Nat.le_add_right _ n), Nat.zero_le _⟩
  refine Set.Finite.subset (((Set.finite_Iic (2 ^ 14 + n)).prod
    (List.finite_length_le UInt8 qnameSize)).image fun p => ⟨p.1, p.2⟩) ?_
  rintro st ⟨k, hk⟩
  exact ⟨(st.pos, st.out), hbound k st hk, rfl⟩

/-- The parser reads the name: where it goes on, the name goes on. -/
theorem nameAt_of_turns (hk : turns (nameTurn rx n qnameSize) nameStart k = some st)
    (hpos : st.pos < n) (hout : st.out.length < qnameSize - 1) :
    NameAt rx n st.pos st.out.length := by
  induction k generalizing st with
  | zero =>
    obtain rfl := Option.some.inj hk
    exact .start
  | succ k ih =>
    obtain ⟨u, hu, hturn⟩ := turns_succ_eq_some.mp hk
    obtain ⟨hupos, huout, -⟩ := nameTurn_cases hturn
    exact (ih hu hupos huout).turn hturn hpos hout

/-- Between two states with the same text there are only pointers. -/
theorem followPointer_turns (hj : turns (nameTurn rx n qnameSize) st j = some st')
    (heq : st'.out.length = st.out.length) (hpos : st'.pos < n)
    (hout : st'.out.length < qnameSize - 1) :
    turns (followPointer rx n) st.pos j = some st'.pos := by
  induction j generalizing st' with
  | zero =>
    obtain rfl := Option.some.inj hj
    rfl
  | succ j ih =>
    obtain ⟨u, hu, hturn⟩ := turns_succ_eq_some.mp hj
    obtain ⟨hupos, huout, -⟩ := nameTurn_cases hturn
    -- the text only grows, and it is the same at both ends
    have hstart : st.out.length ≤ u.out.length :=
      turns_induction (P := fun v : NameState => st.out.length ≤ v.out.length)
        (fun _ _ hle hv => hle.trans (length_le_of_nameTurn hv)) le_rfl hu
    have hend := length_le_of_nameTurn hturn
    have hsame : u.out.length = st.out.length := by omega
    refine turns_succ_eq_some.mpr ⟨u.pos, ih hu hsame hupos huout, ?_⟩
    exact followPointer_of_nameTurn hturn (heq.trans hsame.symm) hpos hout

/-- The parser follows the pointers of the name. -/
theorem turns_of_followPointer {p q : ℕ} {out : CStr} (hout : out.length < qnameSize - 1)
    (h : turns (followPointer rx n) p j = some q) :
    turns (nameTurn rx n qnameSize) ⟨p, out⟩ j = some ⟨q, out⟩ := by
  induction j generalizing q with
  | zero =>
    obtain rfl := Option.some.inj h
    rfl
  | succ j ih =>
    obtain ⟨u, hu, hptr⟩ := turns_succ_eq_some.mp h
    refine turns_succ_eq_some.mpr ⟨⟨u, out⟩, ih hu, ?_⟩
    unfold followPointer at hptr
    split at hptr
    · next hguard =>
      obtain rfl := Option.some.inj hptr
      have hzero : rx u ≠ 0 := fun h0 => by
        have hptr := hguard.2
        rw [h0] at hptr
        exact absurd hptr (by decide)
      unfold nameTurn
      rw [if_pos ⟨hguard.1, hout⟩]
      dsimp only
      rw [if_neg hzero, if_pos hguard.2]
    · exact absurd hptr nofun

theorem exists_nameTurn (hpos : st.pos < n) (hout : st.out.length < qnameSize - 1)
    (hzero : rx st.pos ≠ 0) : ∃ st', nameTurn rx n qnameSize st = some st' := by
  unfold nameTurn
  rw [if_pos ⟨hpos, hout⟩]
  dsimp only
  rw [if_neg hzero]
  split <;> exact ⟨_, rfl⟩

/-- The parser comes wherever the name goes. -/
theorem turns_of_nameAt {p t : ℕ} (h : NameAt rx n p t) :
    t < qnameSize - 1 ∧
      ∃ k st, turns (nameTurn rx n qnameSize) nameStart k = some st ∧ st.pos = p ∧
        st.out.length = t := by
  induction h with
  | start => exact ⟨by decide, 0, nameStart, rfl, rfl, rfl⟩
  | pointer hat hptr ih =>
    obtain ⟨ht, k, ⟨p, out⟩, hk, rfl, rfl⟩ := ih
    refine ⟨ht, k + 1, ⟨_, out⟩, turns_succ_eq_some.mpr ⟨_, hk, ?_⟩, rfl, rfl⟩
    have hone := turns_of_followPointer (j := 1) ht hptr
    exact hone
  | label hat hzero hlabel hpos hout ih =>
    obtain ⟨ht, k, st, hk, rfl, rfl⟩ := ih
    have hin : st.pos < n := by omega
    obtain ⟨st', hturn⟩ := exists_nameTurn hin ht hzero
    obtain ⟨-, -, ⟨hptr, -⟩ | ⟨-, -, j, hj, hpos', hout', hfull, -⟩⟩ := nameTurn_cases hturn
    · -- the byte is no pointer
      rw [followPointer, hlabel, if_neg fun hb => Bool.false_ne_true hb.2] at hptr
      exact absurd hptr nofun
    · -- neither the datagram nor the room ends the label early
      have hwhole : j = (rx st.pos).toNat := by omega
      rw [hwhole] at hpos' hout'
      exact ⟨hout, k + 1, st', turns_succ_eq_some.mpr ⟨st, hk, hturn⟩, hpos', hout'⟩

end Runs

section Ends

variable {rx : Buffer} {n : ℕ}

/-- Once the parser is on a loop of pointers it does not return. -/
theorem not_ends_of_pointerLoop {p t : ℕ} (hat : NameAt rx n p t) (hloop : OnPointerLoop rx n p) :
    ¬ ParseDnsNameEnds rx n := by
  unfold ParseDnsNameEnds
  rw [ends_iff_no_return (reached_finite rx n)]
  obtain ⟨j, hj, hloop⟩ := hloop
  -- the parser comes to the loop, and from there back to the same state
  obtain ⟨ht, k, ⟨p', out⟩, hk, rfl, rfl⟩ := turns_of_nameAt hat
  exact fun hno => hno k _ hk j hj (turns_of_followPointer ht hloop)

/-- A parser that does not return is on a loop of pointers. -/
theorem ends_of_no_pointerLoop (hno : ¬ ∃ p t, NameAt rx n p t ∧ OnPointerLoop rx n p) :
    ParseDnsNameEnds rx n := by
  unfold ParseDnsNameEnds
  rw [ends_iff_no_return (reached_finite rx n)]
  intro k st hk j hj hback
  -- a state that comes back has gone on, and has written nothing in between
  obtain ⟨u, hu⟩ : ∃ u, nameTurn rx n qnameSize st = some u := by
    have hone : turns (nameTurn rx n qnameSize) st 1 ≠ none := fun hnone =>
      absurd (hback.symm.trans (turns_eq_none_of_le hnone hj)) nofun
    exact Option.ne_none_iff_exists'.mp hone
  obtain ⟨hpos, hout, -⟩ := nameTurn_cases hu
  exact hno ⟨st.pos, st.out.length, nameAt_of_turns hk hpos hout, j, hj,
    followPointer_turns hback rfl hpos hout⟩

end Ends

/-- **When `parse_dns_name` returns.** For every datagram, whatever stands behind it in
the buffer: the loop ends if and only if the name never arrives at an offset from which
compression pointers alone lead back to it. -/
theorem parseDnsName_ends_iff (rx : Buffer) (n : ℕ) :
    ParseDnsNameEnds rx n ↔ ¬ ∃ p t, NameAt rx n p t ∧ OnPointerLoop rx n p := by
  refine ⟨?_, ends_of_no_pointerLoop⟩
  rintro hends ⟨p, t, hat, hloop⟩
  exact not_ends_of_pointerLoop hat hloop hends

/-- A query with one question, whose name is a pointer to itself. The scan takes the
pointer for a label of 192 bytes, so 210 bytes are enough to be accepted. -/
def selfPointer : Buffer := fun i => ([0, 1, 1, 0, 0, 1, 0, 0, 0, 0, 0, 0, 0xC0, 0x0C].getD i 0)

/-- It is accepted from a client that has not paid, and its name is never parsed to an
end. -/
theorem selfPointer_never_ends :
    ¬ ∀ (g : Gate) (clientIp : Ip) (rx : Buffer) (n : ℕ), headerSize ≤ n → n ≤ bufSize →
      ∀ qtype reqLen, dnsServe g clientIp rx n = .hijack qtype reqLen →
        ParseDnsNameEnds rx n := by
  intro h
  have hends := h .boot 0x0200000a selfPointer 210 (by decide) (by decide) 0 210
    (by decide)
  have hloop : OnPointerLoop selfPointer 210 12 := ⟨1, Nat.one_pos, by decide⟩
  exact not_ends_of_pointerLoop .start hloop hends

end Dns

end TollGate

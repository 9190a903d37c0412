import TollGate.Lib.ByteOrder

/-!
# Block headers of a mining job

Three places build the 80 bytes that are hashed for a job and a nonce: the remote
miner (`build_header` of `remote_miner.c`), the software miner (the body of
`sw_miner_task`) and the stratum proxy, which checks what the miners submit
(`build_header` of `tollgate_core_stratum_proxy.c`).

The remote miner writes the words least significant byte first and the proxy most
significant byte first. The software miner leaves the version, the time and the
bits out: its hashes stand four bytes too early, and twelve bytes of its header are
whatever the stack held. `headers_agree_iff` says for which jobs and nonces the three
are the same bytes nevertheless.
-/

namespace TollGate

namespace Mining

/-! ### The source operations -/

/-- `tollgate_stratum_job_t`. -/
structure Job where
  jobId : UInt32
  prevhash : Vector UInt8 32
  merkleRoot : Vector UInt8 32
  ntime : UInt32
  nbits : UInt32
  version : UInt32
  target : Vector UInt8 32
  targetLen : ℤ
  valid : Bool
  clean : Bool
deriving DecidableEq

/-- `build_header` of the stratum proxy. Without a job its fields are zero. -/
def proxyHeader (job : Option Job) (nonce ntime version : UInt32) : List UInt8 :=
  be32 version ++
    (match job with
      | some job => job.prevhash.toList ++ job.merkleRoot.toList
      | none => List.replicate 64 0) ++
    be32 ntime ++ be32 ((job.map Job.nbits).getD 0) ++ be32 nonce

/-- `remote_job_t`, as far as `build_header` reads it. -/
structure RemoteJob where
  prevhash : Vector UInt8 32
  merkleRoot : Vector UInt8 32
  version : UInt32
  nbits : UInt32
  ntime : UInt32

/-- The remote miner's copy of a job. -/
def Job.remote (job : Job) : RemoteJob :=
  ⟨job.prevhash, job.merkleRoot, job.version, job.nbits, job.ntime⟩

/-- `build_header` of the remote miner. -/
def remoteHeader (job : RemoteJob) (nonce : UInt32) : List UInt8 :=
  le32 job.version ++ job.prevhash.toList ++ job.merkleRoot.toList ++ le32 job.ntime ++
    le32 job.nbits ++ le32 nonce

/-- The header `sw_miner_task` hashes. Nothing writes its bytes 64 to 75, so they are
the `stack` bytes the array was born with. -/
def swHeader (stack : Vector UInt8 12) (job : Job) (nonce : UInt32) : List UInt8 :=
  job.prevhash.toList ++ job.merkleRoot.toList ++ stack.toList ++ le32 nonce

/-! ### When the headers agree -/

/-- The three headers of a job and a nonce are the same bytes. -/
def HeadersAgree (stack : Vector UInt8 12) (job : Job) (nonce : UInt32) : Prop :=
  remoteHeader job.remote nonce = proxyHeader (some job) nonce job.ntime job.version ∧
    swHeader stack job nonce = proxyHeader (some job) nonce job.ntime job.version

instance (stack : Vector UInt8 12) (job : Job) (nonce : UInt32) :
    Decidable (HeadersAgree stack job nonce) :=
  inferInstanceAs (Decidable (_ ∧ _))

/-- The word, written `n` times. -/
def repeated (n : ℕ) (v : UInt32) : List UInt8 := (List.replicate n (be32 v)).flatten

theorem length_repeated (n : ℕ) (v : UInt32) : (repeated n v).length = 4 * n := by
  unfold repeated
  rw [List.length_flatten, List.map_replicate, List.sum_replicate, length_be32, smul_eq_mul,
    Nat.mul_comm]

theorem repeated_add (m n : ℕ) (v : UInt32) :
    repeated (m + n) v = repeated m v ++ repeated n v := by
  unfold repeated
  rw [List.replicate_add, List.flatten_append]

/-- A string that is unchanged by writing a word in front of it is that word over and
over. -/
theorem append_eq_cons_word_iff {n : ℕ} {v : UInt32} {bytes before after : List UInt8}
    (hlen : bytes.length = 4 * n) :
    bytes ++ before = be32 v ++ bytes ++ after ↔
      bytes = repeated n v ∧ before = be32 v ++ after := by
  induction n generalizing bytes with
  | zero =>
    obtain rfl : bytes = [] := List.length_eq_zero_iff.mp hlen
    simp [repeated]
  | succ n ih =>
    have hrep : repeated (n + 1) v = be32 v ++ repeated n v := by
      unfold repeated
      rw [List.replicate_succ, List.flatten_cons]
    rw [hrep]
    refine ⟨?_, ?_⟩
    · intro h
      -- the first word of the string is the word, and the rest has the same property
      obtain ⟨rest, rfl⟩ : ∃ rest, bytes = be32 v ++ rest := by
        have hword : be32 v <+: be32 v ++ bytes ++ after := by
          rw [List.append_assoc]
          exact List.prefix_append _ _
        have hbytes : bytes <+: be32 v ++ bytes ++ after := h ▸ List.prefix_append _ _
        have hle : (be32 v).length ≤ bytes.length := by
          rw [length_be32, hlen]
          omega
        obtain ⟨rest, hrest⟩ := List.prefix_of_prefix_length_le hword hbytes hle
        exact ⟨rest, hrest.symm⟩
      have hrestlen : rest.length = 4 * n := by
        rw [List.length_append, length_be32] at hlen
        omega
      rw [List.append_assoc, List.append_assoc (be32 v) (be32 v ++ rest) after] at h
      obtain ⟨hrest, hbefore⟩ := (ih hrestlen).mp (List.append_cancel_left h)
      exact ⟨by rw [← hrest], hbefore⟩
    · rintro ⟨rfl, rfl⟩
      have hshift := (ih (length_repeated n v)).mpr ⟨rfl, rfl⟩
      rw [List.append_assoc, hshift]
      simp only [List.append_assoc]

/-- The job and the nonce look the same in all three layouts: the words read the same
from both ends, and everything that the software miner puts in another place is the
version. -/
structure OrderFree (stack : Vector UInt8 12) (job : Job) (nonce : UInt32) : Prop where
  version : Palindrome job.version
  ntime : Palindrome job.ntime
  nbits : Palindrome job.nbits
  nonce : Palindrome nonce
  prevhash : job.prevhash.toList = repeated 8 job.version
  merkleRoot : job.merkleRoot.toList = repeated 8 job.version
  stack : stack.toList = be32 job.version ++ be32 job.ntime ++ be32 job.nbits

/-- The remote miner and the proxy agree when all words read the same from both
ends. -/
theorem remoteHeader_eq_iff (job : Job) (nonce : UInt32) :
    remoteHeader job.remote nonce = proxyHeader (some job) nonce job.ntime job.version ↔
      Palindrome job.version ∧ Palindrome job.ntime ∧ Palindrome job.nbits ∧
        Palindrome nonce := by
  simp only [← le32_eq_be32_iff]
  unfold remoteHeader proxyHeader Job.remote
  simp only [Option.map_some, Option.getD_some, ← List.append_assoc]
  refine ⟨?_, ?_⟩
  · intro h
    obtain ⟨h, hnonce⟩ := List.append_inj' h rfl
    obtain ⟨h, hnbits⟩ := List.append_inj' h rfl
    obtain ⟨h, hntime⟩ := List.append_inj' h rfl
    obtain ⟨h, -⟩ := List.append_inj' h rfl
    obtain ⟨hversion, -⟩ := List.append_inj' h rfl
    exact ⟨hversion, hntime, hnbits, hnonce⟩
  · rintro ⟨hversion, hntime, hnbits, hnonce⟩
    rw [hversion, hntime, hnbits, hnonce]

/-- The software miner and the proxy agree when the hashes are the version over and
over and the stack holds the fields the miner leaves out. -/
theorem swHeader_eq_iff (stack : Vector UInt8 12) (job : Job) (nonce : UInt32) :
    swHeader stack job nonce = proxyHeader (some job) nonce job.ntime job.version ↔
      job.prevhash.toList = repeated 8 job.version ∧
        job.merkleRoot.toList = repeated 8 job.version ∧
        stack.toList = be32 job.version ++ be32 job.ntime ++ be32 job.nbits ∧
        Palindrome nonce := by
  have hlen : (job.prevhash.toList ++ job.merkleRoot.toList).length = 4 * (8 + 8) := by
    simp
  have hshift : job.prevhash.toList ++ job.merkleRoot.toList ++ stack.toList =
      be32 job.version ++ (job.prevhash.toList ++ job.merkleRoot.toList) ++
        (be32 job.ntime ++ be32 job.nbits) ↔
      job.prevhash.toList ++ job.merkleRoot.toList =
          repeated 8 job.version ++ repeated 8 job.version ∧
        stack.toList = be32 job.version ++ (be32 job.ntime ++ be32 job.nbits) := by
    rw [← repeated_add]
    exact append_eq_cons_word_iff hlen
  simp only [← List.append_assoc] at hshift
  rw [← le32_eq_be32_iff]
  unfold swHeader proxyHeader
  simp only [Option.map_some, Option.getD_some, ← List.append_assoc]
  refine ⟨?_, ?_⟩
  · intro h
    obtain ⟨h, hnonce⟩ := List.append_inj' h rfl
    obtain ⟨hhashes, hstack⟩ := hshift.mp h
    obtain ⟨hprev, hmerkle⟩ := List.append_inj hhashes (by simp [length_repeated])
    exact ⟨hprev, hmerkle, hstack, hnonce⟩
  · rintro ⟨hprev, hmerkle, hstack, hnonce⟩
    rw [hnonce, hshift.mpr ⟨by rw [hprev, hmerkle], hstack⟩]

/-- **Exactly when miners and gateway hash the same header.** -/
theorem headers_agree_iff (stack : Vector UInt8 12) (job : Job) (nonce : UInt32) :
    HeadersAgree stack job nonce ↔ OrderFree stack job nonce := by
  unfold HeadersAgree
  rw [remoteHeader_eq_iff, swHeader_eq_iff]
  refine ⟨?_, ?_⟩
  · rintro ⟨⟨hversion, hntime, hnbits, hnonce⟩, hprev, hmerkle, hstack, -⟩
    exact ⟨hversion, hntime, hnbits, hnonce, hprev, hmerkle, hstack⟩
  · intro h
    exact ⟨⟨h.version, h.ntime, h.nbits, h.nonce⟩, h.prevhash, h.merkleRoot, h.stack, h.nonce⟩

/-- The job of the remote miner's unit test. -/
def testJob : Job where
  jobId := 1
  prevhash := Vector.replicate 32 0xAA
  merkleRoot := Vector.replicate 32 0xBB
  ntime := 0x6482AB00
  nbits := 0x17034219
  version := 0x20000000
  target := Vector.replicate 32 0xFF
  targetLen := 32
  valid := true
  clean := false

/-- The test's job has three different headers. -/
theorem testJob_headers_differ :
    ¬ HeadersAgree (Vector.replicate 12 0) testJob 0x12345678 := by
  decide

end Mining

end TollGate

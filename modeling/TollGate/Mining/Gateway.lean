import TollGate.Lib.Run
import TollGate.Mining.Clients
import TollGate.Mining.Credit
import TollGate.Mining.Pow
import TollGate.Mining.Stratum

/-!
# The mining gateway

The stratum proxy, the upstream stratum client and the handler of
`POST /mining/share` as one machine. Miners submit shares on two paths: as
`mining.submit` lines to the proxy, which checks the proof of work, and as POSTs, which
are passed on to the pool and taken for accepted when the write succeeds.

The state is that of all three, with the table of mining clients and the session
tables, and one step takes in whatever reaches the gateway: a line, a posted share, a
new job, the pool connection coming or going, or an operation of the other users of
the session tables. A missing client record is dereferenced in one branch of the
handler; the gateway stops there.
-/

namespace TollGate

namespace Mining

open CStr CJson TollGate.Core

/-! ### The machine -/

/-- What the gateway is linked with. -/
structure Platform where
  /-- The double hash. -/
  sha256d : List UInt8 → Vector UInt8 32
  /-- `(uint64_t)(pdiff_max / diff)`. -/
  quotient : ℚ → UInt64
  /-- The format `%.1f`. -/
  printTenths : ℚ → CStr
  /-- `cJSON_Parse`. -/
  parse : CStr → Option Json
  /-- `(uint32_t)valuedouble`. -/
  castUInt32 : Number → UInt32
  /-- What the registered share callback does to the session tables. The firmware
  registers none. -/
  shareCb : Option (Env → Core → Ip → Submit → Core)

/-- `miner_client_t` of a connected miner. -/
structure Miner where
  ip : Ip
  worker : CStr
  authorized : Bool
deriving DecidableEq

/-- `TOLLGATE_PROXY_MAX_MINERS`. -/
abbrev maxMiners : ℕ := 8

/-- The static state of the proxy, of the upstream client and of the mining client
table, with the session tables. -/
structure Gateway where
  job : Job
  totalShares : UInt64
  totalAccepted : UInt64
  totalRejected : UInt64
  difficulty : ℚ
  miners : Fin maxMiners → Option Miner
  clients : List ClientStats
  /-- The pool connection is up. -/
  connected : Bool
  reqId : UInt32
  /-- `s_state.shares_accepted` of the upstream client. -/
  poolAccepted : UInt64
  poolRejected : UInt64
  core : Core
  /-- The device stopped. -/
  fault : Option Fault

/-- The job before the first one is set. -/
def Job.zero : Job :=
  ⟨0, Vector.replicate 32 0, Vector.replicate 32 0, 0, 0, 0, Vector.replicate 32 0, 0, false, false⟩

/-- The state after start-up. -/
def Gateway.boot : Gateway where
  job := .zero
  totalShares := 0
  totalAccepted := 0
  totalRejected := 0
  difficulty := 1
  miners := fun _ => none
  clients := []
  connected := false
  reqId := 1
  poolAccepted := 0
  poolRejected := 0
  core := .boot
  fault := none

/-! ### Lines -/

/-- `send_response`. -/
def sendResponse (id : UInt32) (result : String) (error : Bool) : CStr :=
  snprintf sendBufSize (if error then
    cstr "\x7b\"id\":" ++ decimal id.toNat ++ cstr ",\"result\":null,\"error\":[20,\"" ++
      cstr result ++ cstr "\"]\x7d\n"
  else
    cstr "\x7b\"id\":" ++ decimal id.toNat ++ cstr ",\"result\":" ++ cstr result ++
      cstr ",\"error\":null\x7d\n")

/-- The text of `handle_set_difficulty`. -/
def difficultyLine (p : Platform) (difficulty : ℚ) : CStr :=
  snprintf sendBufSize (cstr "\x7b\"id\":null,\"method\":\"mining.set_difficulty\",\"params\":[" ++
    p.printTenths difficulty ++ cstr "]\x7d\n")

/-- The worker name of a `mining.authorize` line, or the one known before. -/
def workerOf (worker line : CStr) : CStr :=
  match paramsText line with
  | none => worker
  | some text => ((text.dropWhile fun b => b = 32 || b = 34).takeWhile (· ≠ 34)).take 63

/-- The header the proxy checks for a submission. -/
def Gateway.header (g : Gateway) (s : Submit) : List UInt8 :=
  proxyHeader (some g.job) s.nonce s.ntime s.version

/-- The target of the share difficulty. -/
def Gateway.target (p : Platform) (g : Gateway) : List UInt8 :=
  buildTargetFromDifficulty p.quotient g.difficulty

/-- The submission of a line passes the checks of `handle_line`. -/
def Gateway.passes (p : Platform) (g : Gateway) (s : Submit) : Bool :=
  g.job.valid && s.jobId = g.job.jobId && checkPow p.sha256d (g.header s) (g.target p) 32

/-- The branch of `handle_line` for `mining.submit`. -/
def handleSubmit (p : Platform) (env : Env) (g : Gateway) (miner : Miner) (id : UInt32)
    (s : Submit) : Gateway × List CStr :=
  if !g.job.valid then
    ({ g with totalShares := g.totalShares + 1, totalRejected := g.totalRejected + 1 },
      [sendResponse id "no current job" true])
  else if s.jobId ≠ g.job.jobId then
    ({ g with totalShares := g.totalShares + 1, totalRejected := g.totalRejected + 1 },
      [sendResponse id "stale job" true])
  else if checkPow p.sha256d (g.header s) (g.target p) 32 then
    ({ g with
        totalShares := g.totalShares + 1
        totalAccepted := g.totalAccepted + 1
        clients := updateHashrate env.now g.clients miner.ip true
        core := match p.shareCb with
          | none => g.core
          | some cb => cb env g.core miner.ip s },
      [sendResponse id "true" false])
  else
    ({ g with
        totalShares := g.totalShares + 1
        totalRejected := g.totalRejected + 1
        clients := updateHashrate env.now g.clients miner.ip false },
      [sendResponse id "low difficulty" true])

/-- `handle_line`: the gateway afterwards and the lines sent to the miner. -/
def handleLine (p : Platform) (env : Env) (g : Gateway) (i : Fin maxMiners) (miner : Miner)
    (line : CStr) : Gateway × List CStr :=
  match methodOf line with
  | none => (g, [])
  | some method =>
    let id := idOf line
    if method = cstr "mining.subscribe" then
      (g, subscribeLines g.job miner.ip id ++ [difficultyLine p g.difficulty])
    else if method = cstr "mining.authorize" then
      let miner := { miner with worker := workerOf miner.worker line, authorized := true }
      ({ g with miners := Function.update g.miners i (some miner) }, [sendResponse id "true" false])
    else if method = cstr "mining.submit" then
      handleSubmit p env g miner id (submitParams g.job.version line)
    else if method = cstr "mining.extranonce.subscribe" then (g, [sendResponse id "true" false])
    else if method = cstr "mining.suggest_difficulty" then (g, [sendResponse id "true" false])
    else (g, [sendResponse id "unknown method" true])

/-! ### Posted shares -/

/-- A request of `POST /mining/share`. -/
structure PostRequest where
  ip : Ip
  /-- `req->content_len`. -/
  contentLen : ℤ
  /-- The body, when all of it was received. -/
  body : Option CStr
  /-- `esp_transport_write` to the pool succeeds. -/
  written : Bool
  /-- What the share is worth. -/
  share : Share

/-- The answers of the handler. -/
inductive PostReply where
  | invalidBody
  | badRequest
  | invalidJson
  | missingFields
  | staleJob
  | done (accepted : Bool)
deriving DecidableEq

/-- A number field; other nodes read as zero. -/
def Platform.numberField (p : Platform) (item : Json) : UInt32 :=
  (item.asNumber.map p.castUInt32).getD 0

/-- The fields of a posted share. -/
def Platform.postedSubmit (p : Platform) (body : CStr) : Except PostReply Submit :=
  match p.parse body with
  | none => .error .invalidJson
  | some root =>
    match root.getObjectItem "job_id", root.getObjectItem "nonce", root.getObjectItem "ntime",
      root.getObjectItem "version" with
    | some jobId, some nonce, some ntime, some version =>
      .ok ⟨p.numberField jobId, p.numberField ntime, p.numberField nonce, p.numberField version⟩
    | _, _, _, _ => .error .missingFields

/-- The submission of a request, when its body can be read. -/
def PostRequest.submit (p : Platform) (r : PostRequest) : Except PostReply Submit :=
  if r.contentLen ≤ 0 ∨ r.contentLen > 512 then .error .invalidBody
  else match r.body with
    | none => .error .badRequest
    | some body => p.postedSubmit body

/-- `stratum_client_submit_share`, as far as the gateway can tell: the counters and
whether the line was written. -/
def Gateway.submitUpstream (g : Gateway) (written : Bool) : Gateway × Bool :=
  if !g.connected then (g, false)
  else if !written then ({ g with reqId := g.reqId + 1, poolRejected := g.poolRejected + 1 }, false)
  else ({ g with reqId := g.reqId + 1, poolAccepted := g.poolAccepted + 1 }, true)

/-- The rest of `api_post_mining_share`, once the share was given to the upstream client:
the client is counted and, for an accepted share, its record is read and the session is
credited. -/
def Gateway.settlePost (env : Env) (g : Gateway) (r : PostRequest) (accepted : Bool) : Gateway :=
  let clients := updateHashrate env.now g.clients r.ip accepted
  let found := getOrCreateClient env.now clients r.ip
  let g := { g with clients := found.1 }
  if !accepted then g
  else match found.2 with
    | none => { g with fault := some .nullPointer }
    | some _ => { g with core := apiPostMiningShare env g.core r.ip r.share }

/-- `api_post_mining_share`. -/
def postMiningShare (p : Platform) (env : Env) (g : Gateway) (r : PostRequest) :
    Gateway × PostReply :=
  match r.submit p with
  | .error reply => (g, reply)
  | .ok s =>
    if !g.job.valid || g.job.jobId ≠ s.jobId then (g, .staleJob)
    else
      let upstream := g.submitUpstream r.written
      (upstream.1.settlePost env r upstream.2, .done upstream.2)

/-! ### Runs -/

/-- What happens to the gateway. -/
inductive Input where
  /-- A miner connects to the proxy. -/
  | connect (ip : Ip)
  /-- A miner disconnects. -/
  | disconnect (i : Fin maxMiners)
  /-- A line of a connected miner. -/
  | line (env : Env) (i : Fin maxMiners) (text : CStr)
  /-- A posted share. -/
  | post (env : Env) (r : PostRequest)
  /-- `tollgate_core_stratum_proxy_set_job`. -/
  | setJob (job : Job)
  /-- `tollgate_core_stratum_proxy_set_difficulty`. -/
  | setDifficulty (difficulty : ℚ)
  /-- The pool connection comes or goes. -/
  | pool (connected : Bool)
  /-- The other users of the session tables. -/
  | session (op : SessionOp)

/-- `register_miner`: the first free place. -/
def Gateway.registerMiner (g : Gateway) (ip : Ip) : Gateway :=
  match Fin.find? fun i => (g.miners i).isNone with
  | none => g
  | some i => { g with miners := Function.update g.miners i (some ⟨ip, [], false⟩) }

/-- One step. A stopped gateway does nothing. -/
def step (p : Platform) (g : Gateway) (input : Input) : Gateway :=
  if g.fault.isSome then g
  else match input with
    | .connect ip => g.registerMiner ip
    | .disconnect i => { g with miners := Function.update g.miners i none }
    | .line env i text =>
      match g.miners i with
      | none => g
      | some miner => (handleLine p env g i miner text).1
    | .post env r => (postMiningShare p env g r).1
    | .setJob job => { g with job := job }
    | .setDifficulty difficulty => { g with difficulty := difficulty }
    | .pool connected => { g with connected := connected }
    | .session op => { g with core := g.core.step op }

end Mining

end TollGate

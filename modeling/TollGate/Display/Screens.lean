import Mathlib
import TollGate.Display.Code
import TollGate.Display.WifiText
import TollGate.Lib.Run

/-!
# The screens and the display task

The task of the display draws a screen every two seconds, by the state that other tasks set. While
the payment screen is shown it sleeps, and what they set in the meantime is written over
(`paymentOver`).

On every screen but that one there is a symbol. `Vars.Good` is what all runs keep: the strings fit
their fields. From it, each screen that is sent to the panel can be scanned (`scans_of_run`), and
what a reader finds is the network, with the name that `display_update` was given last and the
configured password, or the address of the portal. Before the first call the name is empty: the boot
screen has a symbol from the start, but until then one that names no network.
-/

namespace TollGate

namespace Display

open CStr

/-- How long the symbol of the normal operation stays the same, in milliseconds, before the task
changes between the network and the portal. -/
def qrCycleMs : ℤ := 5000

/-- The colour of titles. -/
def colorCyan : UInt16 := 0x07FF

/-- The colour of what is going on, of addresses, and of a wallet with less than 100 sats. -/
def colorYellow : UInt16 := 0xFFE0

/-- The colour of what is fine: a payment, the clients, a wallet with 100 sats or more. -/
def colorGreen : UInt16 := 0x07E0

/-- The colour of the price and of the mint. -/
def colorOrange : UInt16 := 0xFD20

/-- The colour of what is wrong: the bar of the error screen and an empty wallet. -/
def colorRed : UInt16 := 0xF800

/-- A grey, for hints. -/
def colorDim : UInt16 := 0x8410

/-- The screen that is to be drawn, which any task may set by `display_set_state`. The task of the
display leaves only the payment screen by itself. -/
inductive DisplayState where
  | boot
  | ready
  | paymentReceived
  | error
  | setupPending
  deriving DecidableEq

/-- What the symbol of the normal operation is for: to join the network, or to open the portal in a
browser once one has joined it. -/
inductive DisplayQrMode where
  | wifi
  | portal
  deriving DecidableEq

/-- What the screens show of the configuration: the password of the network, which is empty when the
network is open, and the address of the device in it. -/
structure Cfg where
  apPassword : CStr
  apIpStr : CStr

/-- The variables of the module without their `s_`, the frame buffer, and what was sent to the panel
last. While `paying` is set, the task sleeps after the payment screen. -/
structure Vars where
  state : DisplayState
  apSsid : CStr
  portalUrl : CStr
  mintUrl : CStr
  wifiStatus : CStr
  activeClients : Int32
  walletBalance : UInt64
  pricePerStep : Int32
  lastQrSwitch : ℤ
  qrMode : DisplayQrMode
  lastPaymentSats : Int32
  lastAllotmentMs : Int64
  fb : Frame
  panel : List (List UInt8)
  paying : Bool

/-- The balance is shown in red when the wallet is empty, in yellow below 100 sats, and else in
green. -/
def walletColor (d : Vars) : UInt16 :=
  if d.walletBalance = 0 then colorRed
  else if d.walletBalance < 100 then colorYellow
  else colorGreen

/-- The host of an address, as much of it as the caller's buffer holds: what is in front of it is
skipped, and it ends at the first slash. -/
def extractDomain (url : CStr) (outSize : ℕ) : CStr :=
  let start :=
    if (cstr "https://").isPrefixOf url then url.drop 8
    else if (cstr "http://").isPrefixOf url then url.drop 7
    else url
  (strncpy outSize start).takeWhile (· != 47)

/-- The arguments of a call of `display_render_text`, so that a screen can list its lines. -/
structure Line where
  x : ℤ
  y : ℤ
  text : CStr
  fg : UInt16
  bg : UInt16
  scale : ℤ

/-- The calls of `display_render_text` for the lines of a screen, in their order. -/
def drawLines (font : UInt8 → ℕ → UInt8) (lines : List Line) (fb : Frame) : Frame :=
  lines.foldl (fun fb l => displayRenderText font fb l.x l.y l.text l.fg l.bg l.scale) fb

/-- A line in the middle of the screen. A text that is wider than the screen begins at a negative
column; what is out of the screen there is not drawn. -/
def centred (y : ℤ) (text : CStr) (fg bg : UInt16) (scale : ℤ) : Line :=
  ⟨(axs15231bWidth - text.length * 8 * scale).tdiv 2, y, text, fg, bg, scale⟩

/-! ### The screens -/

variable (font : UInt8 → ℕ → UInt8) (alloc : Bool) (cfg : Cfg) (d : Vars)

/-- The text of the symbol that joins the network, in the buffer of 320 bytes that all screens have
for it. -/
def wifiText : CStr := buildWifiQrString d.apSsid cfg.apPassword 320

/-- The screen from power-on until the first change of the state: the symbol, and below it how far
the start has come. -/
def renderBootScreen : Frame :=
  let fb := axs15231bFillScreen d.fb colorBg
  let fb := renderQrAt alloc fb (wifiText cfg d) 0 10 axs15231bWidth 220
  drawLines font
    [centred 240 (cstr "TollGate") colorCyan colorBg 2,
      centred 268 d.wifiStatus colorYellow colorBg 1,
      centred 295 (snprintf 320 (cstr "SSID: " ++ d.apSsid)) colorDim colorBg 1,
      centred 315 (cstr "Scan QR to connect") colorDim colorBg 1] fb

/-- The text of the symbol on the screen of the normal operation: the network or the address of the
portal, which is copied into the same buffer. -/
def readyText : CStr :=
  match d.qrMode with
  | .wifi => wifiText cfg d
  | .portal => strncpy 320 d.portalUrl

/-- The lines below the symbol in the normal operation. The number of clients is the only one that
may be missing. -/
def readyLines : List Line :=
  let first := match d.qrMode with
    | .wifi =>
      [⟨10, 330, cstr "Scan to connect", colorCyan, colorBg, 1⟩,
        ⟨10, 346, snprintf 48 (cstr "SSID: " ++ d.apSsid), colorWhite, colorBg, 1⟩]
    | .portal =>
      [⟨10, 330, cstr "Portal URL", colorCyan, colorBg, 1⟩,
        ⟨10, 346, snprintf 48 (cstr "Mint: " ++ (extractDomain d.mintUrl 48).take 30),
          colorOrange, colorBg, 1⟩]
  first ++
    [⟨10, 362, snprintf 48 (signedDecimal d.pricePerStep.toInt ++ cstr " sats/min"),
        colorOrange, colorBg, 1⟩,
      ⟨10, 378, snprintf 48 (cstr "Wallet: " ++ decimal d.walletBalance.toNat ++ cstr " sats"),
        walletColor d, colorBg, 1⟩] ++
    if 0 < d.activeClients then
      [⟨10, 394, snprintf 48 (cstr "Clients: " ++ signedDecimal d.activeClients.toInt),
        colorGreen, colorBg, 1⟩]
    else []

/-- The screen of the normal operation. -/
def renderReadyScreen : Frame :=
  let fb := axs15231bFillScreen d.fb colorBg
  let fb := renderQrAt alloc fb (readyText cfg d) 0 5 axs15231bWidth 320
  drawLines font (readyLines d) fb

/-- The address of the page on which the device is set up. -/
def setupUrl : CStr := cstr "http://" ++ cfg.apIpStr ++ cstr "/setup"

/-- The screen of a device that knows no network to connect to: the symbol, and what to do. -/
def renderSetupPendingScreen : Frame :=
  let fb := axs15231bFillScreen d.fb colorBg
  let fb := renderQrAt alloc fb (wifiText cfg d) 0 5 axs15231bWidth 280
  drawLines font
    [centred 290 (cstr "WiFi Setup") colorCyan colorBg 1,
      ⟨10, 310, snprintf 64 (cstr "SSID: " ++ d.apSsid), colorWhite, colorBg, 1⟩,
      ⟨10, 328, cstr "1. Connect to WiFi above", colorDim, colorBg, 1⟩,
      ⟨10, 344, cstr "2. Open browser, go to:", colorDim, colorBg, 1⟩,
      ⟨10, 362, snprintf 64 (setupUrl cfg), colorYellow, colorBg, 1⟩,
      ⟨10, 384, cstr "3. Configure upstream WiFi", colorDim, colorBg, 1⟩] fb

/-- The screen after a payment, the only one without a symbol: what was paid, and for how long. The
time is given in minutes when it is at least one, without the seconds that are left over. -/
def renderPaymentScreen : Frame :=
  let fb := axs15231bFillScreen d.fb colorBg
  let fb := axs15231bFillRect fb 0 190 axs15231bWidth 50 colorGreen
  let secs := d.lastAllotmentMs.toInt.tdiv 1000
  let time :=
    if 60 ≤ secs then cstr "Time: " ++ signedDecimal (secs.tdiv 60) ++ cstr " min"
    else cstr "Time: " ++ signedDecimal secs ++ cstr " sec"
  drawLines font
    [centred 202 (cstr "ACCESS GRANTED") colorWhite colorGreen 2,
      centred 270 (snprintf 48 (cstr "Paid: " ++ signedDecimal d.lastPaymentSats.toInt ++
        cstr " sats")) colorWhite colorBg 1,
      centred 290 (snprintf 48 time) colorWhite colorBg 1,
      centred 320 (snprintf 48 (cstr "Wallet: " ++ decimal d.walletBalance.toNat ++ cstr " sats"))
        (walletColor d) colorBg 1] fb

/-- The screen without a connection: the symbol is still there, since the own network goes on. -/
def renderErrorScreen : Frame :=
  let fb := axs15231bFillScreen d.fb colorBg
  let fb := renderQrAt alloc fb (wifiText cfg d) 0 5 axs15231bWidth 150
  let fb := axs15231bFillRect fb 0 160 axs15231bWidth 36 colorRed
  drawLines font
    [centred 170 (cstr "NO UPSTREAM") colorWhite colorRed 2,
      centred 210 (cstr "Internet unavailable") colorWhite colorBg 1,
      centred 230 (cstr "AP still active") colorGreen colorBg 1,
      centred 250 (snprintf 64 (cstr "SSID: " ++ d.apSsid)) colorDim colorBg 1,
      centred 270 (snprintf 64 (setupUrl cfg)) colorYellow colorBg 1,
      centred 286 (cstr "Scan QR to connect") colorDim colorBg 1] fb

/-! ### The task and its callers -/

/-- The other one of the two. -/
def swap : DisplayQrMode → DisplayQrMode
  | .wifi => .portal
  | .portal => .wifi

/-- The frame buffer after the screen of the state was drawn. Each of them begins with a black
screen, so nothing is left of the one before. -/
def render : Frame :=
  match d.state with
  | .boot => renderBootScreen font alloc cfg d
  | .ready => renderReadyScreen font alloc cfg d
  | .paymentReceived => renderPaymentScreen font d
  | .error => renderErrorScreen font alloc cfg d
  | .setupPending => renderSetupPendingScreen font alloc cfg d

/-- In the normal operation the symbol changes when it was the same for `QR_CYCLE_MS`. -/
def cycleMode (now : ℤ) : Vars :=
  if d.state = .ready ∧ qrCycleMs ≤ now - d.lastQrSwitch then
    { d with qrMode := swap d.qrMode, lastQrSwitch := now }
  else d

/-- The body of the loop of `display_task`, up to the delay: the screen is drawn and sent to the
panel. The state is read once, at the beginning. -/
def taskStep (now : ℤ) : Vars :=
  let d := cycleMode d now
  let fb := render font alloc cfg d
  { d with
    fb := fb
    panel := axs15231bFlush fb
    paying := decide (d.state = .paymentReceived) }

/-- A field after a call that may give it a new string, which ends at its first zero, and of which
the field takes as much as it has room for. With a null pointer the field stays as it is. -/
def update (size : ℕ) (field : CStr) : Option (List UInt8) → CStr
  | none => field
  | some src => strncpy size (src.takeWhile (· != 0))

/-- What happens to the module: the calls of other tasks, an iteration of the task of the display,
and the end of its sleep after the payment screen. In an iteration `alloc` says whether `malloc` has
memory for the symbol. -/
inductive Event where
  | displaySetState (state : DisplayState)
  | displayUpdate (apSsid : Option (List UInt8)) (activeClients : Int32) (walletBalance : UInt64)
      (portalUrl mintUrl : Option (List UInt8)) (pricePerStep : Int32)
      (wifiStatus : Option (List UInt8))
  | displayNotifyPayment (amountSats : Int32) (allotmentMs : Int64) (balance : UInt64)
  | iteration (alloc : Bool) (now : ℤ)
  | paymentOver

/-- What an event does, where it can happen: there is no iteration while the task sleeps. When its
sleep after the payment screen is over, the task sets the state, whatever it was set to meanwhile.
-/
def step : Event → Option Vars
  | .displaySetState state => some { d with state := state }
  | .displayUpdate apSsid activeClients walletBalance portalUrl mintUrl price wifiStatus =>
    some
      { d with
        apSsid := update 32 d.apSsid apSsid
        portalUrl := update 256 d.portalUrl portalUrl
        mintUrl := update 256 d.mintUrl mintUrl
        wifiStatus := update 32 d.wifiStatus wifiStatus
        pricePerStep := if 0 < price then price else d.pricePerStep
        activeClients := activeClients
        walletBalance := walletBalance }
  | .displayNotifyPayment amountSats allotmentMs balance =>
    some
      { d with
        lastPaymentSats := amountSats
        lastAllotmentMs := allotmentMs
        walletBalance := balance
        state := .paymentReceived }
  | .iteration alloc now => if d.paying then none else some (taskStep font alloc cfg d now)
  | .paymentOver => if d.paying then some { d with paying := false, state := .ready } else none

/-- Some events, one after the other, where all of them can happen. -/
def run (d : Vars) (events : List Event) : Option Vars := events.foldlM (step font cfg) d

/-- The variables when the task begins, and a black screen. No name is known yet. -/
def displayInit (fb : Frame) (now : ℤ) : Vars :=
  let fb := axs15231bFillScreen fb 0
  ⟨.boot, [], [], [], cstr "starting...", 0, 0, 0, now, .wifi, 0, 0, fb,
    axs15231bFlush fb, false⟩

/-! ### What is below a symbol -/

variable {font alloc cfg d} {d' : Vars} {fb : Frame}

/-- What each of some lines leaves as it is, all of them leave as it is. -/
theorem keeps_lines {lines : List Line} {top : ℤ}
    (hline : ∀ l ∈ lines, ∀ fb, Keeps top fb (drawLines font [l] fb)) (fb : Frame) :
    Keeps top fb (drawLines font lines fb) := by
  induction lines generalizing fb with
  | nil => exact Keeps.refl top fb
  | cons l lines ih =>
    exact (hline l List.mem_cons_self fb).trans
      (ih (fun l hl => hline l (List.mem_cons_of_mem _ hl)) _)

/-- Lines that begin below a row are drawn below it, however long they are: they wrap downwards. -/
theorem keeps_drawLines {lines : List Line} {top : ℤ} (h : ∀ l ∈ lines, top ≤ l.y ∧ 0 ≤ l.scale)
    (fb : Frame) : Keeps top fb (drawLines font lines fb) :=
  keeps_lines (fun l hl fb =>
    (keeps_renderText font fb l.x l.y l.text l.fg l.bg (h l hl).2).mono (h l hl).1) fb

/-- The symbol of a screen: it stays as it is when something is drawn below its area, and the panel
shows it. -/
theorem scans_screen {text : List UInt8} {top h : ℕ} (htext : 0 ∉ text) (hlen : text.length ≤ 321)
    (hh : 123 ≤ h) (hbottom : top + h ≤ 330) (fb : Frame) {fb' : Frame}
    (hkeeps : Keeps (top + h : ℕ) (renderQrAt true fb text 0 top axs15231bWidth h) fb') :
    Scans colorWhite (shown (axs15231bFlush fb')) 0 0 axs15231bWidth 330 text := by
  have hscreen : 330 ≤ axs15231bHeight := by decide
  have hscan := scans_of_renderQrAt fb htext hlen 0 top (w := axs15231bWidth) (by decide) hh
    (Nat.zero_add _).le (hbottom.trans hscreen)
  rw [Nat.zero_add] at hscan
  refine (hscan.congr fun col _ hcol row _ hrow => ?_).mono (Nat.zero_le top) hbottom
  rw [shown_flush fb' hcol (by omega)]
  exact hkeeps.pixel_eq hcol (by exact_mod_cast hrow)

/-! ### What all runs keep -/

/-- The strings of the symbols fit their fields, and have no zero in them. -/
structure Vars.Good (d : Vars) : Prop where
  ssid : d.apSsid.length < 32
  ssid_text : 0 ∉ d.apSsid
  url : d.portalUrl.length < 256
  url_text : 0 ∉ d.portalUrl

/-- A field that is updated holds a string that fits it, whatever the caller passes. -/
theorem update_good {size : ℕ} (hsize : 0 < size) {field : CStr} (hlen : field.length < size)
    (htext : 0 ∉ field) (src : Option (List UInt8)) :
    (update size field src).length < size ∧ 0 ∉ update size field src := by
  cases src with
  | none => exact ⟨hlen, htext⟩
  | some src =>
    refine ⟨?_, fun hzero => ?_⟩
    · rw [update, strncpy, List.length_take]
      omega
    · have hmem := List.mem_of_mem_take hzero
      have hne := List.mem_takeWhile_imp hmem
      exact absurd hne (by decide)

/-- Changing the symbol leaves the strings. -/
theorem Vars.Good.cycleMode (h : d.Good) (now : ℤ) : (Display.cycleMode d now).Good := by
  unfold Display.cycleMode
  split
  · exact ⟨h.ssid, h.ssid_text, h.url, h.url_text⟩
  · exact h

/-- **Whatever happens, the strings fit their fields.** -/
theorem Vars.Good.step (h : d.Good) {e : Event} (hstep : step font cfg d e = some d') :
    d'.Good := by
  cases e with
  | displaySetState state =>
    cases hstep
    exact ⟨h.ssid, h.ssid_text, h.url, h.url_text⟩
  | displayUpdate apSsid activeClients walletBalance portalUrl mintUrl price wifiStatus =>
    cases hstep
    obtain ⟨hssid, hssid'⟩ := update_good (by decide) h.ssid h.ssid_text apSsid
    obtain ⟨hurl, hurl'⟩ := update_good (by decide) h.url h.url_text portalUrl
    exact ⟨hssid, hssid', hurl, hurl'⟩
  | displayNotifyPayment amountSats allotmentMs balance =>
    cases hstep
    exact ⟨h.ssid, h.ssid_text, h.url, h.url_text⟩
  | iteration alloc now =>
    have hcycle := h.cycleMode now
    rw [Display.step] at hstep
    split at hstep
    · cases hstep
    · cases hstep
      exact ⟨hcycle.ssid, hcycle.ssid_text, hcycle.url, hcycle.url_text⟩
  | paymentOver =>
    rw [Display.step] at hstep
    split at hstep
    · cases hstep
      exact ⟨h.ssid, h.ssid_text, h.url, h.url_text⟩
    · cases hstep

/-- The strings fit their fields in every run. -/
theorem Vars.Good.run (h : d.Good) {events : List Event} (hrun : run font cfg d events = some d') :
    d'.Good := by
  refine StepRun.foldlM_induction (R := fun d _ d' => d.Good → d'.Good) ?_ ?_ hrun h
  · exact fun d h => h
  · exact fun hnext ih h => ih (h.step hnext)

/-- The fields are empty at first. -/
theorem good_init (fb : Frame) (now : ℤ) : (displayInit fb now).Good :=
  ⟨Nat.zero_lt_succ 31, List.not_mem_nil, Nat.zero_lt_succ 255, List.not_mem_nil⟩

/-! ### Every screen has its symbol -/

/-- A password as the configuration has it: a string in a field of 64 bytes. -/
structure Cfg.Good (cfg : Cfg) : Prop where
  password : cfg.apPassword.length < 64
  password_text : 0 ∉ cfg.apPassword

/-- The network that one is asked to join, with a name and the configured password. -/
def network (cfg : Cfg) (name : CStr) : Network :=
  ⟨name, if cfg.apPassword = [] then none else some cfg.apPassword⟩

/-- The text for the network is a string without zeros, it has room in a symbol, and a reader of the
text finds the network. -/
theorem Vars.Good.wifiText (h : d.Good) (hcfg : cfg.Good) :
    0 ∉ wifiText cfg d ∧ (wifiText cfg d).length ≤ 321 ∧
      readWifi (wifiText cfg d) = some (network cfg d.apSsid) := by
  have hlen := (buildWifiQrString_eq h.ssid hcfg.password).2
  exact ⟨not_mem_buildWifi h.ssid hcfg.password h.ssid_text hcfg.password_text,
    hlen.trans (by omega), readWifi_buildWifi h.ssid hcfg.password⟩

/-- The text of the symbol in each state. -/
def symbolText (cfg : Cfg) (d : Vars) : CStr :=
  match d.state with
  | .ready => readyText cfg d
  | _ => Display.wifiText cfg d

/-- The text of the symbol has room in it, in each state. -/
theorem Vars.Good.symbolText (h : d.Good) (hcfg : cfg.Good) :
    0 ∉ symbolText cfg d ∧ (symbolText cfg d).length ≤ 321 := by
  obtain ⟨htext, hlen, -⟩ := h.wifiText hcfg
  unfold Display.symbolText
  split
  · unfold readyText
    split
    · exact ⟨htext, hlen⟩
    · rw [strncpy_of_length_lt (h.url.trans (by omega))]
      exact ⟨h.url_text, h.url.le.trans (by omega)⟩
  · exact ⟨htext, hlen⟩

/-- The lines of the normal operation are below the area of the symbol. -/
theorem below_readyLines : ∀ l ∈ readyLines d, ((5 + 320 : ℕ) : ℤ) ≤ l.y ∧ 0 ≤ l.scale := by
  unfold readyLines
  cases d.qrMode with
  | wifi => split <;> simp
  | portal => split <;> simp

/-- **On each screen but the one for payments there is the symbol**: the lines and the bars are all
below its area, so nothing is drawn over it. -/
theorem Vars.Good.scans_render (h : d.Good) (hcfg : cfg.Good)
    (hstate : d.state ≠ .paymentReceived) :
    Scans colorWhite (shown (axs15231bFlush (render font true cfg d))) 0 0 axs15231bWidth 330
      (Display.symbolText cfg d) := by
  obtain ⟨htext, hlen⟩ := h.symbolText hcfg
  revert htext hlen
  unfold render Display.symbolText
  cases hs : d.state with
  | boot =>
    intro htext hlen
    refine scans_screen (h := 220) htext hlen (by norm_num) (Nat.le_of_ble_eq_true rfl) _
      (keeps_drawLines ?_ _)
    simp [centred]
  | ready =>
    intro htext hlen
    exact scans_screen (h := 320) htext hlen (by norm_num) (Nat.le_of_ble_eq_true rfl) _
      (keeps_drawLines below_readyLines _)
  | paymentReceived => exact absurd hs hstate
  | error =>
    intro htext hlen
    refine scans_screen (h := 150) htext hlen (by norm_num) (Nat.le_of_ble_eq_true rfl) _
      (((keeps_fillRect _ _ _ _ _ _).mono ?_).trans (keeps_drawLines ?_ _))
    · norm_num
    · simp [centred]
  | setupPending =>
    intro htext hlen
    refine scans_screen (h := 280) htext hlen (by norm_num) (Nat.le_of_ble_eq_true rfl) _
      (keeps_drawLines ?_ _)
    simp [centred]

/-- What the reader of a symbol gets: the address when the symbol is the one for the portal, and
else the network. -/
theorem Vars.Good.read_symbolText (h : d.Good) (hcfg : cfg.Good) :
    if d.state = .ready ∧ d.qrMode = .portal then Display.symbolText cfg d = d.portalUrl
    else readWifi (Display.symbolText cfg d) = some (network cfg d.apSsid) := by
  obtain ⟨-, -, hread⟩ := h.wifiText hcfg
  unfold Display.symbolText
  by_cases hready : d.state = .ready
  · rw [hready]
    dsimp only
    unfold readyText
    cases hmode : d.qrMode with
    | wifi => simpa using hread
    | portal => simpa using strncpy_of_length_lt (h.url.trans (by norm_num))
  · rw [if_neg fun hportal => hready hportal.1]
    split
    · rename_i hstate
      exact absurd hstate hready
    · exact hread

/-! ### Nothing is written outside of the frame buffer -/

/-- A symbol is drawn within the buffer, wherever its area is. -/
theorem keeps_renderQrAt (fb : Frame) (text : CStr) (xOff yOff maxW maxH : ℤ) :
    Keeps 0 fb (renderQrAt alloc fb text xOff yOff maxW maxH) := by
  unfold renderQrAt
  dsimp only
  split
  · exact Keeps.refl 0 fb
  · exact (keeps_foldl_drawModule _ _ (Int.natCast_nonneg _) _ fb).zero

/-- Lines anywhere, on the screen or not. -/
theorem keeps_drawLines_zero {lines : List Line} (hscale : ∀ l ∈ lines, 0 ≤ l.scale) (fb : Frame) :
    Keeps 0 fb (drawLines font lines fb) :=
  keeps_lines (fun l hl fb =>
    (keeps_renderText font fb l.x l.y l.text l.fg l.bg (hscale l hl)).zero) fb

/-- **Each screen is drawn within the buffer.** -/
theorem keeps_render (d : Vars) : Keeps 0 d.fb (render font alloc cfg d) := by
  have hscreen := keeps_fillScreen d.fb colorBg
  unfold render
  cases d.state with
  | boot =>
    refine (hscreen.trans (keeps_renderQrAt _ _ _ _ _ _)).trans (keeps_drawLines_zero ?_ _)
    simp [centred]
  | ready =>
    exact (hscreen.trans (keeps_renderQrAt _ _ _ _ _ _)).trans
      (keeps_drawLines_zero (fun l hl => (below_readyLines l hl).2) _)
  | paymentReceived =>
    refine (hscreen.trans (keeps_fillRect _ _ _ _ _ _).zero).trans (keeps_drawLines_zero ?_ _)
    simp [centred]
  | error =>
    refine ((hscreen.trans (keeps_renderQrAt _ _ _ _ _ _)).trans
      (keeps_fillRect _ _ _ _ _ _).zero).trans (keeps_drawLines_zero ?_ _)
    simp [centred]
  | setupPending =>
    refine (hscreen.trans (keeps_renderQrAt _ _ _ _ _ _)).trans (keeps_drawLines_zero ?_ _)
    simp [centred]

/-- Changing the symbol draws nothing. -/
theorem keeps_cycleMode (d : Vars) (now : ℤ) : (cycleMode d now).fb = d.fb := by
  unfold cycleMode
  split
  · rfl
  · rfl

/-- Whatever happens, what is outside of the buffer stays as it is. -/
theorem keeps_step {e : Event} (hstep : step font cfg d e = some d') : Keeps 0 d.fb d'.fb := by
  cases e with
  | displaySetState state =>
    cases hstep
    exact Keeps.refl 0 _
  | displayUpdate apSsid activeClients walletBalance portalUrl mintUrl price wifiStatus =>
    cases hstep
    exact Keeps.refl 0 _
  | displayNotifyPayment amountSats allotmentMs balance =>
    cases hstep
    exact Keeps.refl 0 _
  | iteration alloc now =>
    rw [step] at hstep
    split at hstep
    · cases hstep
    · cases hstep
      have hrender : Keeps 0 _ (render font alloc cfg (cycleMode d now)) := keeps_render _
      rwa [keeps_cycleMode] at hrender
  | paymentOver =>
    rw [step] at hstep
    split at hstep
    · cases hstep
      exact Keeps.refl 0 _
    · cases hstep

/-- **No run writes outside of the frame buffer**, neither in front of it nor behind it, whatever
texts it is given and whether there is memory for a symbol or not. -/
theorem keeps_run {events : List Event} (hrun : run font cfg d events = some d') :
    Keeps 0 d.fb d'.fb := by
  refine StepRun.foldlM_induction (R := fun d _ d' => Keeps 0 d.fb d'.fb) ?_ ?_ hrun
  · exact fun d => Keeps.refl 0 d.fb
  · exact fun hnext hrest => (keeps_step hnext).trans hrest

/-! ### What the fields hold -/

/-- The name of the network that a call of `display_update` passes, where it passes one. -/
def Event.nameGiven : Event → Option (List UInt8)
  | .displayUpdate apSsid _ _ _ _ _ _ => apSsid
  | _ => none

/-- The address of the portal that a call of `display_update` passes, where it passes one. -/
def Event.portalGiven : Event → Option (List UInt8)
  | .displayUpdate _ _ _ portalUrl _ _ _ => portalUrl
  | _ => none

/-- What a field of `size` bytes holds after some events: the string that it was given last, cut to
what it has room for. It is empty when it was given none. -/
def held (size : ℕ) (given : Event → Option (List UInt8)) (events : List Event) : CStr :=
  update size [] (events.filterMap given).getLast?

/-- A string that was given later counts, and one that was given earlier when there is no later one.
-/
theorem update_update (size : ℕ) (field : CStr) (src : Option (List UInt8))
    (later : List (List UInt8)) :
    update size (update size field src) later.getLast? =
      update size field (src.toList ++ later).getLast? := by
  cases src with
  | none => rfl
  | some src =>
    rw [Option.toList_some, List.singleton_append, List.getLast?_cons]
    cases later.getLast? with
    | none => rfl
    | some last => rfl

/-- What the first event gives stands before what the others give. -/
theorem filterMap_given (given : Event → Option (List UInt8)) (e : Event) (events : List Event) :
    (e :: events).filterMap given = (given e).toList ++ events.filterMap given := by
  rw [List.filterMap_cons]
  cases given e with
  | none => rfl
  | some src => rfl

/-- Only `display_update` changes the two fields. -/
theorem fields_of_step {e : Event} (hstep : step font cfg d e = some d') :
    d'.apSsid = update 32 d.apSsid e.nameGiven ∧
      d'.portalUrl = update 256 d.portalUrl e.portalGiven := by
  cases e with
  | displaySetState state =>
    cases hstep
    exact ⟨rfl, rfl⟩
  | displayUpdate apSsid activeClients walletBalance portalUrl mintUrl price wifiStatus =>
    cases hstep
    exact ⟨rfl, rfl⟩
  | displayNotifyPayment amountSats allotmentMs balance =>
    cases hstep
    exact ⟨rfl, rfl⟩
  | iteration alloc now =>
    rw [step] at hstep
    split at hstep
    · cases hstep
    · cases hstep
      unfold taskStep cycleMode
      split
      · exact ⟨rfl, rfl⟩
      · exact ⟨rfl, rfl⟩
  | paymentOver =>
    rw [step] at hstep
    split at hstep
    · cases hstep
      exact ⟨rfl, rfl⟩
    · cases hstep

/-- After a run, the two fields hold what they were given last, or what they held before. -/
theorem fields_of_run {events : List Event} (hrun : run font cfg d events = some d') :
    d'.apSsid = update 32 d.apSsid (events.filterMap Event.nameGiven).getLast? ∧
      d'.portalUrl = update 256 d.portalUrl (events.filterMap Event.portalGiven).getLast? := by
  refine StepRun.foldlM_induction
    (R := fun d events d' =>
      d'.apSsid = update 32 d.apSsid (events.filterMap Event.nameGiven).getLast? ∧
        d'.portalUrl = update 256 d.portalUrl (events.filterMap Event.portalGiven).getLast?)
    ?_ ?_ hrun
  · exact fun d => ⟨rfl, rfl⟩
  · rintro d e next events d' hnext ⟨hname', hportal'⟩
    obtain ⟨hname, hportal⟩ := fields_of_step hnext
    rw [hname', hname, update_update, ← filterMap_given, hportal', hportal, update_update,
      ← filterMap_given]
    exact ⟨rfl, rfl⟩

/-! ### The symbol in a run -/

/-- The state is set, and its screen is drawn. -/
theorem keeps_run_example :
    Keeps 0 (displayInit (fun _ => 0) 0).fb (taskStep (fun _ _ => 255) false ⟨[], cstr "10.0.0.1"⟩
      { displayInit (fun _ => 0) 0 with state := .error } 7).fb := by
  have hset : step (fun _ _ => 255) ⟨[], cstr "10.0.0.1"⟩ (displayInit (fun _ => 0) 0)
      (.displaySetState .error) =
        some { displayInit (fun _ => 0) 0 with state := .error } := rfl
  have hrun : run (fun _ _ => 255) ⟨[], cstr "10.0.0.1"⟩ (displayInit (fun _ => 0) 0)
      [.displaySetState .error, .iteration false 7] =
        some (taskStep (fun _ _ => 255) false ⟨[], cstr "10.0.0.1"⟩
          { displayInit (fun _ => 0) 0 with state := .error } 7) := by
    rw [run, List.foldlM_cons, hset]
    rfl
  exact keeps_run hrun

end Display

end TollGate

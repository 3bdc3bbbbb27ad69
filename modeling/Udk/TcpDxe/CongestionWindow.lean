import Udk.Runs
import Udk.NetLib.NetBuffer

/-!
# The congestion window

`CWnd` under the ACKs of a peer and the losses of a connection.  Each sum and each difference
goes through a wrap: with `wrap32` the functions are those of the code, with `id` they compute
`CWnd` as a mathematical integer.
-/

namespace Udk
namespace Tcp

open NetLib (sub32 add32)

/-- `TCP_CONGEST_OPEN`, `TCP_CONGEST_LOSS` and `TCP_CONGEST_RECOVER`. -/
inductive CongestState where
  | «open»
  | loss
  | recover
deriving DecidableEq

/-- The fields of a `TCP_CB` around the congestion window. -/
structure WindowTcb where
  sndUna : Nat
  sndNxt : Nat
  sndWnd : Nat
  sndWl1 : Nat
  sndWl2 : Nat
  sndMss : Nat
  sndWndScale : Nat
  cWnd : Int
  ssthresh : Int
  recover : Nat
  lossRecover : Nat
  congestState : CongestState
  dupAck : Nat
  /-- The duplicate ACKs of the current recovery; no decision reads them. -/
  duplicates : Nat

/-- `TCP_SEQ_LT`. -/
def seqLt (a b : Nat) : Bool :=
  2 ^ 31 ≤ sub32 a b

/-- `TCP_SEQ_LEQ`. -/
def seqLeq (a b : Nat) : Bool :=
  seqLt a b || sub32 a b == 0

/-- A `UINT32`. -/
def wrap32 (x : Int) : Int :=
  x % 2 ^ 32

namespace WindowTcb

/-- `TCP_MAX_WIN << SndWndScale`. -/
def maxWin (s : WindowTcb) : Nat :=
  0xffff <<< s.sndWndScale

def flightSize (s : WindowTcb) : Nat :=
  sub32 s.sndNxt s.sndUna

/-- The `Ssthresh` of a new recovery or of a loss. -/
def newSsthresh (s : WindowTcb) : Nat :=
  max (s.flightSize / 2) (2 * s.sndMss)

/-- What a partial ACK takes from the window. -/
def deflation (s : WindowTcb) (ack : Nat) : Nat :=
  let acked := sub32 ack s.sndUna
  if s.sndMss ≤ acked then acked - s.sndMss else acked

end WindowTcb

/-- A segment with an ACK; `wnd` is the field of its header. -/
structure AckSegment where
  seq : Nat
  ack : Nat
  wnd : Nat
  /-- `Len` of `TcpInput`. -/
  len : Nat

section Input

variable (wrap : Int → Int) (s : WindowTcb) (seg : AckSegment)

/-- `TcpFastRecover`. -/
def tcpFastRecover : WindowTcb :=
  if s.congestState ≠ .recover then
    { s with
      ssthresh := s.newSsthresh
      recover := s.sndNxt
      congestState := .recover
      duplicates := 0
      cWnd := wrap (s.newSsthresh + 3 * s.sndMss) }
  else if seg.ack = s.sndUna then
    { s with cWnd := wrap (s.cWnd + s.sndMss), duplicates := s.duplicates + 1 }
  else if seqLeq s.recover seg.ack then
    { s with
      cWnd := min s.ssthresh (wrap (s.flightSize + s.sndMss))
      congestState := .open
      duplicates := 0 }
  else { s with cWnd := wrap (s.cWnd - s.deflation seg.ack) }

/-- `TcpFastLossRecover`. -/
def tcpFastLossRecover : WindowTcb :=
  if seqLt s.sndUna seg.ack && seqLeq s.lossRecover seg.ack then { s with congestState := .open }
  else s

/-- The window behind an ACK of new data. -/
def grownWindow : Int :=
  min (if s.cWnd < s.ssthresh then wrap (s.cWnd + s.sndMss)
    else wrap (s.cWnd + max (s.sndMss * s.sndMss / s.cWnd) 1)) s.maxWin

/-- Congestion avoidance, fast recovery and fast retransmission in `TcpInput`. -/
def congestionControl : WindowTcb :=
  if s.congestState = .open ∧ s.dupAck < 3 ∨ s.congestState = .loss then
    let s := if seqLt s.sndUna seg.ack then { s with cWnd := grownWindow wrap s } else s
    if s.congestState = .loss then tcpFastLossRecover s seg else s
  else tcpFastRecover wrap s seg

/-- `DupAck` with this segment. -/
def countDupAck : WindowTcb :=
  { s with dupAck :=
      if seg.ack = s.sndUna ∧ s.sndUna ≠ s.sndNxt ∧ seg.wnd <<< s.sndWndScale = s.sndWnd ∧
          seg.len = 0 then
        (s.dupAck + 1) % 2 ^ 16
      else 0 }

/-- The update of the window information in `TcpInput`. -/
def updateWindow : WindowTcb :=
  let wnd := seg.wnd <<< s.sndWndScale
  if seqLt s.sndWl1 seg.seq || s.sndWl1 == seg.seq && seqLeq s.sndWl2 seg.ack then
    let right := add32 seg.ack wnd
    let shrinks := seqLt right (add32 s.sndWl2 s.sndWnd)
    if shrinks && s.sndWl1 == seg.seq && s.sndWl2 == seg.ack && seg.len == 0 then s
    else
      { s with
        recover := if shrinks && s.congestState = .recover && seqLt right s.recover then right
          else s.recover
        lossRecover :=
          if shrinks && s.congestState = .loss && seqLt right s.lossRecover then right
          else s.lossRecover
        sndNxt := if shrinks && seqLt right s.sndNxt then right else s.sndNxt
        sndWnd := wnd
        sndWl1 := seg.seq
        sndWl2 := seg.ack }
  else s

/-- `TcpInput` goes on with the ACK. -/
def isCurrent : Bool :=
  !seqLt seg.ack s.sndUna && !seqLt s.sndNxt seg.ack

/-- The part of `TcpInput` behind an ACK. -/
def tcpInput : WindowTcb :=
  if isCurrent s seg then
    let s := congestionControl wrap (countDupAck s seg) seg
    updateWindow { s with sndUna := if seqLt s.sndUna seg.ack then seg.ack else s.sndUna } seg
  else s

/-- `TcpRexmitTimeout`; that it may close the connection is left out. -/
def tcpRexmitTimeout : WindowTcb :=
  { s with
    ssthresh := s.newSsthresh
    cWnd := s.sndMss
    lossRecover := s.sndNxt
    congestState := .loss
    duplicates := 0 }

/-- `Win` of `TcpDataToSend`. -/
def sendWindow : Nat :=
  let limit := add32 s.sndWl2 s.sndWnd
  let edge := (s.sndUna + s.cWnd.toNat) % 2 ^ 32
  let limit := if seqLt edge limit then edge else limit
  if seqLt s.sndNxt limit then sub32 limit s.sndNxt else 0

end Input

/-- What happens to a connection. -/
inductive WindowEvent where
  | ack (seg : AckSegment)
  | rexmitTimeout
  /-- `TcpToSendData` sends a segment. -/
  | sent (len : Nat) (fin : Bool)

def windowStep (wrap : Int → Int) (s : WindowTcb) : WindowEvent → Option WindowTcb
  | .ack seg => some (tcpInput wrap s seg)
  | .rexmitTimeout => some (tcpRexmitTimeout s)
  | .sent len fin =>
      if len ≤ sendWindow s then some { s with sndNxt := (s.sndNxt + len + fin.toNat) % 2 ^ 32 }
      else none

/-- A run of a connection; its states are the entries of the trace and the last one. -/
abbrev WindowRun (wrap : Int → Int) :
    WindowTcb → List (WindowTcb × WindowEvent) → WindowTcb → Prop :=
  Run fun s e s' => windowStep wrap s e = some s'

/-- A connection behind `TcpInitTcbPeer`; a time stamp takes its twelve bytes from `SndMss`. -/
structure Connected (s : WindowTcb) : Prop where
  mss_pos : 0 < s.sndMss
  mss_lt : s.sndMss < 2 ^ 16
  scale : s.sndWndScale ≤ 14
  cWnd : s.cWnd = s.sndMss ∨ s.cWnd = s.sndMss + 12
  state : s.congestState ≠ .recover
  duplicates : s.duplicates = 0

/-- The range of the congestion window. -/
def CWndInRange (s : WindowTcb) : Prop :=
  1 ≤ s.cWnd ∧ s.cWnd ≤ s.maxWin + 3 * s.sndMss + s.sndMss * s.duplicates

instance decidableCWndInRange (s : WindowTcb) : Decidable (CWndInRange s) :=
  inferInstanceAs (Decidable (_ ∧ _))

/-- A recovery starts within the largest window; a duplicate ACK does not carry the window to
`2 ^ 32`, a partial one takes less than the whole of it. -/
def AckFits (s : WindowTcb) (seg : AckSegment) : Prop :=
  if s.congestState ≠ .recover then s.newSsthresh ≤ s.maxWin
  else if seg.ack = s.sndUna then s.cWnd + s.sndMss < 2 ^ 32
  else if seqLeq s.recover seg.ack then s.flightSize + s.sndMss < 2 ^ 32
  else s.deflation seg.ack < s.cWnd

/-- The condition on a step: an ACK that comes to `TcpFastRecover` fits. -/
def WindowFits (s : WindowTcb) : WindowEvent → Prop
  | .ack seg => isCurrent s seg →
      ¬ (s.congestState = .open ∧ (countDupAck s seg).dupAck < 3 ∨ s.congestState = .loss) →
      AckFits s seg
  | _ => True

section Steps

variable {s s' : WindowTcb} {seg : AckSegment}

/-- What every step keeps. -/
structure WindowOk (s : WindowTcb) : Prop where
  mss_pos : 0 < s.sndMss
  mss_lt : s.sndMss < 2 ^ 16
  scale : s.sndWndScale ≤ 14
  range : CWndInRange s
  small : s.cWnd < 2 ^ 32
  calm : s.congestState ≠ .recover → s.duplicates = 0
  ssthresh : s.congestState = .recover → 2 * s.sndMss ≤ s.ssthresh ∧ s.ssthresh ≤ s.maxWin

theorem WindowOk.maxWin_bounds
    (h : WindowOk s) :
    0xffff ≤ s.maxWin ∧ s.maxWin ≤ 0xffff * 2 ^ 14 := by
  have hpow : 2 ^ s.sndWndScale ≤ 2 ^ 14 := Nat.pow_le_pow_right (by decide) h.scale
  have hpos := Nat.two_pow_pos s.sndWndScale
  rw [WindowTcb.maxWin, Nat.shiftLeft_eq]
  omega

theorem wrap32_eq
    {x : Int}
    (hlow : 0 ≤ x)
    (hhigh : x < 2 ^ 32) :
    wrap32 x = id x :=
  Int.emod_eq_of_lt hlow hhigh

theorem growth_lt
    {c m : Int}
    (hm : 0 ≤ m)
    (hm' : m < 2 ^ 16)
    (hc : 1 ≤ c)
    (hc' : c < 2 ^ 31) :
    0 ≤ m * m / c ∧ c + max (m * m / c) 1 < 2 ^ 32 := by
  have hsquare : m * m ≤ (2 ^ 16 - 1) * (2 ^ 16 - 1) :=
    Int.mul_le_mul (by omega) (by omega) hm (by omega)
  have hle : m * m / c ≤ m * m := Int.ediv_le_self _ (Int.mul_nonneg hm hm)
  refine ⟨Int.ediv_nonneg (Int.mul_nonneg hm hm) (by omega), ?_⟩
  rcases le_or_gt c (2 ^ 16) with hsmall | hlarge
  · omega
  · -- the quotient is small
    have hlt : m * m / c < 2 ^ 16 := Int.ediv_lt_of_lt_mul (by omega) (by omega)
    omega

section

variable (h : WindowOk s)
include h

theorem grownWindow_ok
    (hcalm : s.congestState ≠ .recover) :
    grownWindow wrap32 s = grownWindow id s ∧
      WindowOk { s with cWnd := grownWindow id s } := by
  obtain ⟨hlow, hhigh⟩ := h.range
  obtain ⟨hwin, hwin'⟩ := h.maxWin_bounds
  have hmss := h.mss_lt
  rw [h.calm hcalm, Nat.cast_zero, Int.mul_zero] at hhigh
  obtain ⟨_, hgrowth⟩ := growth_lt (Int.natCast_nonneg s.sndMss) (by omega) hlow (by omega)
  have hmin : 1 ≤ grownWindow id s ∧ grownWindow id s ≤ s.maxWin := by
    have hpos := h.mss_pos
    simp only [grownWindow, id]
    split_ifs <;> omega
  refine ⟨?_, { h with
    range := ⟨hmin.1, hmin.2.trans ?_⟩
    small := lt_of_le_of_lt hmin.2 (by omega)
    ssthresh := fun hrecover => absurd hrecover hcalm }⟩
  · rw [grownWindow, grownWindow, wrap32_eq (by omega) (by omega),
      wrap32_eq (by omega) hgrowth]
  · show (s.maxWin : Int) ≤ s.maxWin + 3 * s.sndMss + s.sndMss * s.duplicates
    rw [h.calm hcalm]
    omega

theorem tcpFastRecover_ok
    (hfits : AckFits s seg) :
    tcpFastRecover wrap32 s seg = tcpFastRecover id s seg ∧
      WindowOk (tcpFastRecover id s seg) := by
  obtain ⟨hlow, hhigh⟩ := h.range
  have hwin' := h.maxWin_bounds.2
  have hpos := h.mss_pos
  have hmss := h.mss_lt
  unfold AckFits at hfits
  unfold tcpFastRecover
  split_ifs at hfits ⊢ with hstate hack hfull
  · have hthresh : 2 * s.sndMss ≤ s.newSsthresh := Nat.le_max_right _ _
    rw [wrap32_eq (by omega) (by omega)]
    refine ⟨rfl, hpos, hmss, h.scale, ⟨?_, ?_⟩, ?_, fun hne => absurd rfl hne, fun _ => ⟨?_, ?_⟩⟩
    · show (1 : Int) ≤ s.newSsthresh + 3 * s.sndMss
      omega
    · show (s.newSsthresh + 3 * s.sndMss : Int) ≤ s.maxWin + 3 * s.sndMss + s.sndMss * (0 : Nat)
      omega
    · show (s.newSsthresh + 3 * s.sndMss : Int) < 2 ^ 32
      omega
    · exact Int.ofNat_le.mpr hthresh
    · exact Int.ofNat_le.mpr hfits
  · rw [wrap32_eq (by omega) hfits]
    refine ⟨rfl, hpos, hmss, h.scale, ⟨?_, ?_⟩, hfits, fun hne => absurd (not_not.mp hstate) hne,
      h.ssthresh⟩
    · show (1 : Int) ≤ s.cWnd + s.sndMss
      omega
    · show s.cWnd + s.sndMss ≤
        s.maxWin + 3 * s.sndMss + s.sndMss * ((s.duplicates + 1 : Nat) : Int)
      rw [Nat.cast_succ, Int.mul_add, Int.mul_one]
      omega
  · obtain ⟨hthresh, hthresh'⟩ := h.ssthresh (not_not.mp hstate)
    rw [wrap32_eq (by omega) (by exact_mod_cast hfits)]
    have hmin : 1 ≤ min s.ssthresh (s.flightSize + s.sndMss) ∧
        min s.ssthresh (s.flightSize + s.sndMss) ≤ s.maxWin := by omega
    refine ⟨rfl, hpos, hmss, h.scale, ⟨hmin.1, ?_⟩, lt_of_le_of_lt hmin.2 (by omega), fun _ => rfl,
      fun hrecover => by cases hrecover⟩
    show min s.ssthresh (s.flightSize + s.sndMss) ≤
      s.maxWin + 3 * s.sndMss + s.sndMss * (0 : Nat)
    omega
  · have hsmall := h.small
    have hpart : 1 ≤ s.cWnd - s.deflation seg.ack ∧ s.cWnd - s.deflation seg.ack ≤ s.cWnd := by
      omega
    rw [wrap32_eq (by omega) (by omega)]
    exact ⟨rfl, hpos, hmss, h.scale, ⟨hpart.1, hpart.2.trans hhigh⟩, hpart.2.trans_lt hsmall,
      h.calm, h.ssthresh⟩

theorem tcpFastLossRecover_ok
    (hcalm : s.congestState ≠ .recover) :
    WindowOk (tcpFastLossRecover s seg) := by
  unfold tcpFastLossRecover
  split_ifs
  · exact { h with calm := fun _ => h.calm hcalm, ssthresh := fun hrecover => by cases hrecover }
  · exact h

theorem congestionControl_ok
    (hfits : ¬ (s.congestState = .open ∧ s.dupAck < 3 ∨ s.congestState = .loss) → AckFits s seg) :
    congestionControl wrap32 s seg = congestionControl id s seg ∧
      WindowOk (congestionControl id s seg) := by
  unfold congestionControl
  by_cases hcase : s.congestState = .open ∧ s.dupAck < 3 ∨ s.congestState = .loss
  · have hcalm : s.congestState ≠ .recover := by
      rintro hrecover
      rw [hrecover] at hcase
      simp at hcase
    obtain ⟨heq, hgrown⟩ := grownWindow_ok h hcalm
    rw [if_pos hcase, if_pos hcase, heq]
    refine ⟨rfl, ?_⟩
    dsimp only
    split_ifs
    · exact tcpFastLossRecover_ok hgrown hcalm
    · exact hgrown
    · exact tcpFastLossRecover_ok h hcalm
    · exact h
  · rw [if_neg hcase, if_neg hcase]
    exact tcpFastRecover_ok h (hfits hcase)

theorem updateWindow_ok :
    WindowOk (updateWindow s seg) := by
  unfold updateWindow
  split
  case isTrue =>
    dsimp only
    split
    case isTrue => exact h
    case isFalse => exact { h with }
  case isFalse => exact h

theorem windowStep_ok
    {e : WindowEvent}
    (hfits : WindowFits s e)
    (hstep : windowStep wrap32 s e = some s') :
    windowStep id s e = some s' ∧ WindowOk s' := by
  cases e with
  | ack seg =>
      obtain rfl := Option.some_inj.mp hstep
      by_cases hcurrent : isCurrent s seg
      · have hcounted : WindowOk (countDupAck s seg) := { h with }
        obtain ⟨heq, hok⟩ := congestionControl_ok hcounted (hfits hcurrent)
        simp only [windowStep, tcpInput, hcurrent, if_true, heq]
        exact ⟨trivial, updateWindow_ok { hok with }⟩
      · simp only [windowStep, tcpInput, hcurrent]
        exact ⟨rfl, h⟩
  | rexmitTimeout =>
      obtain rfl := Option.some_inj.mp hstep
      have hpos := h.mss_pos
      have hmss := h.mss_lt
      refine ⟨rfl, hpos, hmss, h.scale, ⟨?_, ?_⟩, ?_, fun _ => rfl,
        fun hrecover => by cases hrecover⟩
      · show (1 : Int) ≤ s.sndMss
        omega
      · show (s.sndMss : Int) ≤ s.maxWin + 3 * s.sndMss + s.sndMss * (0 : Nat)
        omega
      · show (s.sndMss : Int) < 2 ^ 32
        omega
  | sent len fin =>
      refine ⟨hstep, ?_⟩
      simp only [windowStep] at hstep
      split_ifs at hstep
      obtain rfl := Option.some_inj.mp hstep
      exact { h with }

theorem windowRun_ok
    {trace : List (WindowTcb × WindowEvent)}
    (hrun : WindowRun wrap32 s trace s')
    (hfits : ∀ x ∈ trace, WindowFits x.1 x.2) :
    WindowOk s' ∧ WindowRun id s trace s' := by
  induction hrun with
  | nil s => exact ⟨h, .nil s⟩
  | cons hstep _ ih =>
      obtain ⟨heq, hok⟩ := windowStep_ok h (hfits _ List.mem_cons_self) hstep
      obtain ⟨hlast, hsame⟩ := ih hok fun x hx => hfits x (List.mem_cons_of_mem _ hx)
      exact ⟨hlast, .cons heq hsame⟩

end

/-- A connection with segments of 64 bytes. -/
def sampleWindowTcb : WindowTcb where
  sndUna := 0
  sndNxt := 0
  sndWnd := 0xffff
  sndWl1 := 0
  sndWl2 := 0
  sndMss := 64
  sndWndScale := 0
  cWnd := 64
  ssthresh := 0xffffffff
  recover := 0
  lossRecover := 0
  congestState := .open
  dupAck := 0
  duplicates := 0

theorem connected_sample : Connected sampleWindowTcb :=
  ⟨by decide, by decide, by decide, by decide, by decide, rfl⟩

end Steps

end Tcp
end Udk

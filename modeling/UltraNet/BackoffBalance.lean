/-
The count of retries is balanced: it is the number of the armed guards, counting a
session that is between registering and arming, or within `dismiss`, as one.
-/
import UltraNet.RetryGuards

namespace UltraNet

/-- The session sleeps, or has an operation under way that is a retry. -/
def IoPhase.isRetry : IoPhase → Bool
  | .requestRetry _ | .bodyRetry _ | .writeRetry _ _ | .responseRetry _ | .relayRetry _ _ =>
      true
  | _ => false

/-- The live guards of a session that waits in the phase. -/
def IoPhase.guards : IoPhase → List Bool
  | .request | .body => [false]
  | .requestRetry _ | .bodyRetry _ | .writeRetry _ _ | .responseRetry _ | .relayRetry _ _ =>
      [true]
  | _ => []

/-- A session retries just while one of its guards is armed. -/
theorem IoPhase.isRetry_eq (phase : IoPhase) :
    phase.isRetry = phase.guards.contains true := by
  cases phase <;> rfl

namespace GuardOp

/-- The operations in pairs take the guards to others: each `register` is followed by
`arm` on a guard that is not armed, each `dismiss` is of an armed one. -/
def settles : List Bool → List GuardOp → Option (List Bool)
  | guards, [] => some guards
  | [], .construct :: ops => settles [false] ops
  | [false], .register :: .arm :: ops => settles [true] ops
  | [true], .disarm :: .unregister :: ops => settles [false] ops
  | [_], .destroy :: ops => settles [] ops
  | guards, .await :: ops => settles guards ops
  | _, _ => none

/-- The first operation may be the second one of a pair. -/
def resumes : List Bool → List GuardOp → Option (List Bool)
  | [false], .arm :: ops => settles [true] ops
  | [false], .unregister :: ops => settles [false] ops
  | guards, ops => settles guards ops

def inPair : List GuardOp → Bool
  | .arm :: _ | .unregister :: _ => true
  | _ => false

/-- The armed guards, and one for a pair that is half done. -/
def weight (guards : List Bool) (ops : List GuardOp) : Nat :=
  guards.count true + if inPair ops then 1 else 0

/-- The operations that leave the count alone while no guard is armed. -/
def isQuiet : GuardOp → Bool
  | .construct | .destroy | .await => true
  | .register | .arm | .disarm | .unregister => false

variable {guards last : List Bool} {ops : List GuardOp}

/-- Operations that are done leave the rest for the guards that they lead to. -/
theorem settles_append (hops : settles guards ops = some last) (rest : List GuardOp) :
    settles guards (ops ++ rest) = settles last rest := by
  induction guards, ops using settles.induct <;> simp_all [settles]

@[simp]
theorem resumes_nil (guards : List Bool) : resumes guards [] = some guards := by
  simp [resumes, settles]

theorem resumes_of_settles (hsettles : settles guards ops = some last) :
    resumes guards ops = some last ∧ inPair ops = false := by
  cases ops with
  | nil => simp_all [settles, resumes, inPair]
  | cons op ops =>
      cases op <;> simp_all [settles, resumes, inPair]

/-- With pairs left to do, no more than one guard is live. -/
theorem length_of_resumes (hresumes : resumes guards ops = some last)
    (hlast : last.length ≤ 1) : guards.length ≤ 1 := by
  have hsettles : ∀ guards ops, settles guards ops = some last → guards.length ≤ 1 := by
    intro guards ops hsettles
    induction guards, ops using settles.induct <;> simp_all [settles]
  unfold resumes at hresumes
  split at hresumes
  · exact Nat.le_refl 1
  · exact Nat.le_refl 1
  · exact hsettles guards ops hresumes

/-- Between the pairs each armed guard weighs one. -/
theorem weight_of_settles (hsettles : settles guards ops = some last) :
    weight guards ops = guards.count true := by
  rw [weight, (resumes_of_settles hsettles).2]
  rfl

/-- What is left to do begins with an operation on the one guard that it is for. -/
theorem resumes_cons {op : GuardOp} (hresumes : resumes guards (op :: ops) = some last) :
    (op = .construct ∧ guards = [] ∧ settles [false] ops = some last) ∨
      (op = .register ∧ guards = [false] ∧ ∃ rest, ops = .arm :: rest ∧
        settles [true] rest = some last) ∨
      (op = .arm ∧ guards = [false] ∧ settles [true] ops = some last) ∨
      (op = .disarm ∧ guards = [true] ∧ ∃ rest, ops = .unregister :: rest ∧
        settles [false] rest = some last) ∨
      (op = .unregister ∧ guards = [false] ∧ settles [false] ops = some last) ∨
      (op = .destroy ∧ (∃ armed, guards = [armed]) ∧ settles [] ops = some last) ∨
      (op = .await ∧ settles guards ops = some last) := by
  unfold resumes at hresumes
  split at hresumes
  · simp_all
  · simp_all
  · unfold settles at hresumes
    split at hresumes <;> simp_all

/-- The step lemma: the next operation is possible, and changes the count as it changes
the guards and the pairs. -/
theorem exec_resumes {op : GuardOp} (hresumes : resumes guards (op :: ops) = some last) :
    ∃ change guards', op.exec guards = some (change, guards') ∧
      resumes guards' ops = some last ∧
      (weight guards' ops : Int) = weight guards (op :: ops) + change := by
  rcases resumes_cons hresumes with
    ⟨rfl, rfl, hops⟩ | ⟨rfl, rfl, rest, rfl, hrest⟩ | ⟨rfl, rfl, hops⟩ |
      ⟨rfl, rfl, rest, rfl, hrest⟩ | ⟨rfl, rfl, hops⟩ | ⟨rfl, ⟨armed, rfl⟩, hops⟩ | ⟨rfl, hops⟩
  · refine ⟨0, [false], rfl, (resumes_of_settles hops).1, ?_⟩
    rw [weight_of_settles hops]
    rfl
  · exact ⟨1, [false], rfl, hrest, rfl⟩
  · refine ⟨0, [true], rfl, (resumes_of_settles hops).1, ?_⟩
    rw [weight_of_settles hops]
    rfl
  · exact ⟨0, [false], rfl, hrest, rfl⟩
  · refine ⟨-1, [false], rfl, (resumes_of_settles hops).1, ?_⟩
    rw [weight_of_settles hops]
    rfl
  · refine ⟨if armed then -1 else 0, [], rfl, (resumes_of_settles hops).1, ?_⟩
    rw [weight_of_settles hops]
    cases armed <;> rfl
  · refine ⟨0, guards, rfl, (resumes_of_settles hops).1, ?_⟩
    rw [weight_of_settles hops]
    simp [weight, inPair]

theorem weight_le_one (hresumes : resumes guards ops = some last)
    (hlast : last.length ≤ 1) : weight guards ops ≤ 1 := by
  have hlength := length_of_resumes hresumes hlast
  have hcount : guards.count true ≤ 1 := List.count_le_length.trans hlength
  unfold resumes at hresumes
  split at hresumes
  · exact Nat.le_refl 1
  · exact Nat.le_refl 1
  · rw [weight_of_settles hresumes]
    exact hcount

theorem exec_quiet {op : GuardOp} (hquiet : op.isQuiet = true)
    (hguards : guards.contains true = false) {change : Int} {guards' : List Bool}
    (hexec : op.exec guards = some (change, guards')) : guards'.contains true = false := by
  cases op with
  | register | arm | disarm | unregister => exact nomatch hquiet
  | construct =>
      obtain rfl := (Prod.mk.inj (Option.some.inj hexec)).2
      simpa using hguards
  | await =>
      obtain rfl := (Prod.mk.inj (Option.some.inj hexec)).2
      exact hguards
  | destroy =>
      cases guards with
      | nil => exact nomatch hexec
      | cons armed others =>
          obtain rfl := (Prod.mk.inj (Option.some.inj hexec)).2
          simp only [List.contains_cons, Bool.or_eq_false_iff] at hguards
          exact hguards.2

end GuardOp

namespace SessionIo

variable (s : SessionIo)

@[simp]
theorem guards_fail : s.fail.phase.guards = [] := by
  unfold fail
  split <;> rfl

@[simp]
theorem guards_readLoop : s.readLoop.phase.guards = [] := by
  unfold readLoop
  split <;> rfl

@[simp]
theorem guards_writeLoop (written : Nat) : (s.writeLoop written).phase.guards = [] := by
  unfold writeLoop
  split
  · rfl
  · exact s.guards_readLoop

@[simp]
theorem guards_forwardOne : s.forwardOne.phase.guards = [] := by
  unfold forwardOne
  split
  · rfl
  · exact s.guards_writeLoop 0

@[simp]
theorem guards_finish : s.finish.phase.guards = [] := by
  unfold finish
  simp only
  split <;> rfl

end SessionIo

namespace Traced

open GuardOp

/-- What a branch does takes the guards to those of the phase that it ends in, and it
leaves the count alone where it neither comes from a retry nor goes to one. -/
structure Fair (guards : List Bool) (t : Traced) : Prop where
  settles : settles guards t.1 = some t.2.phase.guards
  quiet : guards.contains true = false → t.2.phase.isRetry = false →
    t.1.all isQuiet = true

theorem Fair.ite {guards : List Bool} {P : Prop} [Decidable P] {t u : Traced}
    (ht : Fair guards t) (hu : Fair guards u) : Fair guards (if P then t else u) := by
  split
  · exact ht
  · exact hu

/-- The branches behind `error()` in a retry: it ends, is tried again or gives up. -/
theorem Fair.asked {guards : List Bool} {stop again last : Traced} (hstop : Fair guards stop)
    (hagain : Fair guards again) (hlast : Fair guards last) (code : IoError) (count : Nat) :
    Fair guards (if code ≠ .enobufs then stop
      else if count + 1 < maxEnobufsRetries then again else last) :=
  Fair.ite hstop (Fair.ite hagain hlast)

theorem Fair.leave {t : Traced} (ht : Fair [] t) (armed : Bool) :
    Fair [armed] (leave t) where
  settles := ht.settles
  quiet _ hretry := ht.quiet rfl hretry

/-- More is done before the branch. -/
theorem Fair.after {guards last : List Bool} {t : Traced} (ht : Fair last t)
    {ops : List GuardOp} (hops : GuardOp.settles guards ops = some last)
    (hquiet : guards.contains true = false →
      last.contains true = false ∧ ops.all isQuiet = true) :
    Fair guards (ops ++ t.1, t.2) where
  settles := (settles_append hops t.1).trans ht.settles
  quiet hguards hretry := by
    obtain ⟨hlast, hall⟩ := hquiet hguards
    rw [List.all_append, hall, ht.quiet hlast hretry]
    rfl

/-- Nothing is done outside the guards' scopes. -/
theorem fair_nil {s : SessionIo} (hguards : s.phase.guards = []) : Fair [] ([], s) :=
  ⟨hguards ▸ rfl, fun _ _ => rfl⟩

theorem closeInside_fair (s : SessionIo) (armed : Bool) : Fair [armed] (closeInside s) :=
  ⟨rfl, fun _ _ => rfl⟩

theorem closeOutside_fair (s : SessionIo) : Fair [] (closeOutside s) :=
  ⟨rfl, fun _ _ => rfl⟩

theorem fail_fair (s : SessionIo) : Fair [] (fail s) := by
  unfold fail
  split
  · exact ⟨by simp [GuardOp.settles], fun _ _ => rfl⟩
  · exact fair_nil s.guards_fail

theorem failInvalid_fair (s : SessionIo) : Fair [] (failInvalid s) := fail_fair _

theorem finish_fair (s : SessionIo) : Fair [] (finish s) := by
  unfold finish
  split
  · exact fair_nil s.guards_finish
  · exact ⟨by simp [GuardOp.settles], fun _ _ => rfl⟩

theorem bodyLoop_fair (s : SessionIo) : Fair [false] (bodyLoop s) :=
  Fair.ite ⟨rfl, fun _ _ => rfl⟩ ⟨rfl, fun _ _ => rfl⟩

theorem onTurn_fair (s : SessionIo) (shutdown : Bool) : Fair [] (onTurn s shutdown) :=
  Fair.ite (closeOutside_fair s) ⟨rfl, fun _ _ => rfl⟩

/-- The ways out of the loops that read the request and its body: the bytes have come
at once, or in a retry, that is dismissed. -/
structure LoopEnd (armed : Bool) (loopEnd : List GuardOp) : Prop where
  settles : GuardOp.settles [armed] loopEnd = some [false]
  quiet : armed = false → loopEnd = []

theorem loopEnd_nil : LoopEnd false [] := ⟨rfl, fun _ => rfl⟩

theorem loopEnd_dismiss : LoopEnd true dismiss := ⟨rfl, nofun⟩

section Branches

variable {armed : Bool} {loopEnd : List GuardOp} (s : SessionIo)

theorem LoopEnd.after (hend : LoopEnd armed loopEnd) {t : Traced} (ht : Fair [false] t) :
    Fair [armed] (loopEnd ++ t.1, t.2) := by
  refine ht.after hend.settles ?_
  intro hguards
  have harmed : armed = false := by simpa using hguards
  rw [hend.quiet harmed]
  exact ⟨rfl, rfl⟩

theorem requestReceived_fair (hend : LoopEnd armed loopEnd) (bytes : List UInt8) :
    Fair [armed] (requestReceived s bytes loopEnd) := by
  refine Fair.ite (closeInside_fair _ armed) ?_
  simp only
  cases HttpRequest.parse (s.clientBuf.append bytes).head with
  | none =>
      have hwait : Fair [false] ([], { s with
          clientBuf := s.clientBuf.append bytes, phase := .request }) :=
        ⟨rfl, fun _ _ => rfl⟩
      simpa using hend.after hwait
  | some parsed =>
      -- the guard of the request goes and the one of the body comes
      have hbody := (bodyLoop_fair { s with
        clientBuf := s.clientBuf.append bytes
        req := parsed.1
        totalReq := parsed.2 + (getContentLength parsed.1.headers).toNat }).after
          (show GuardOp.settles [false] [.destroy, .construct] = some [false] from rfl)
          fun _ => ⟨rfl, rfl⟩
      simpa using hend.after hbody

theorem bodyReceived_fair (hend : LoopEnd armed loopEnd) (bytes : List UInt8) :
    Fair [armed] (bodyReceived s bytes loopEnd) :=
  Fair.ite (closeInside_fair _ armed) (hend.after (bodyLoop_fair _))

theorem onRequest_fair (n : IoResult (List UInt8)) : Fair [false] (onRequest s n) := by
  cases n with
  | value bytes =>
      exact Fair.ite (closeInside_fair s false) (requestReceived_fair s loopEnd_nil bytes)
  | error code => exact Fair.ite ⟨rfl, nofun⟩ (closeInside_fair s false)

theorem onRequestRetry_fair (enobufs : Nat) (rn : IoResult (List UInt8)) (stray : IoError) :
    Fair [true] (onRequestRetry s enobufs rn stray) := by
  have hstop : Fair [true] (closeInside s) := closeInside_fair s true
  have hlast : Fair [true] (dismiss, { s with phase := .request }) := ⟨rfl, nofun⟩
  obtain (- | ⟨byte, bytes⟩) | code := rn
  · exact hstop.asked ⟨rfl, nofun⟩ hlast stray enobufs
  · exact requestReceived_fair s loopEnd_dismiss (byte :: bytes)
  · exact hstop.asked ⟨rfl, nofun⟩ hlast code enobufs

theorem onBody_fair (n : IoResult (List UInt8)) : Fair [false] (onBody s n) := by
  cases n with
  | value bytes =>
      exact Fair.ite (closeInside_fair s false) (bodyReceived_fair s loopEnd_nil bytes)
  | error code => exact Fair.ite ⟨rfl, nofun⟩ (closeInside_fair s false)

theorem onBodyRetry_fair (enobufs : Nat) (rn : IoResult (List UInt8)) (stray : IoError) :
    Fair [true] (onBodyRetry s enobufs rn stray) := by
  have hstop : Fair [true] (closeInside s) := closeInside_fair s true
  have hlast : Fair [true] (dismiss ++ (bodyLoop s).1, (bodyLoop s).2) :=
    loopEnd_dismiss.after (bodyLoop_fair s)
  obtain (- | ⟨byte, bytes⟩) | code := rn
  · exact hstop.asked ⟨rfl, nofun⟩ hlast stray enobufs
  · exact bodyReceived_fair s loopEnd_dismiss (byte :: bytes)
  · exact hstop.asked ⟨rfl, nofun⟩ hlast code enobufs

theorem onAcquired_fair (ok : Bool) : Fair [] (onAcquired s ok) :=
  Fair.ite (fair_nil (SessionIo.guards_forwardOne _)) (closeOutside_fair s)

theorem onLinked_fair (n : IoResult (List UInt8)) (stray : IoError) :
    Fair [] (onLinked s n stray) := by
  obtain (- | ⟨byte, bytes⟩) | code := n
  · exact Fair.ite (failInvalid_fair s) (fair_nil (s.guards_writeLoop 0))
  · exact fair_nil (SessionIo.guards_readLoop _)
  · exact Fair.ite (failInvalid_fair s) (fair_nil (s.guards_writeLoop 0))

theorem onWrite_fair (written : Nat) (w : IoResult Nat) : Fair [] (onWrite s written w) := by
  cases w with
  | value size => exact fair_nil (s.guards_writeLoop (written + size))
  | error code => exact Fair.ite ⟨rfl, nofun⟩ (failInvalid_fair s)

theorem onWriteRetry_fair (written retry : Nat) (rw : IoResult Nat) :
    Fair [true] (onWriteRetry s written retry rw) := by
  have hfail : Fair [true] (leave (failInvalid s)) := (failInvalid_fair s).leave true
  cases rw with
  | value size => exact Fair.ite ((fair_nil s.guards_readLoop).leave true) hfail
  | error code => exact hfail.asked ⟨rfl, nofun⟩ hfail code retry

theorem responseReceived_fair (bytes : List UInt8) : Fair [] (responseReceived s bytes) :=
  Fair.ite (failInvalid_fair _) (fair_nil (SessionIo.guards_readLoop _))

theorem onResponse_fair (n : IoResult (List UInt8)) : Fair [] (onResponse s n) := by
  cases n with
  | value bytes => exact Fair.ite (failInvalid_fair s) (responseReceived_fair s bytes)
  | error code => exact Fair.ite ⟨rfl, nofun⟩ (failInvalid_fair s)

theorem onResponseRetry_fair (enobufs : Nat) (rn : IoResult (List UInt8)) (stray : IoError) :
    Fair [true] (onResponseRetry s enobufs rn stray) := by
  have hstop : Fair [true] (leave (failInvalid s)) := (failInvalid_fair s).leave true
  have hlast : Fair [true] (leave ([], s.readLoop)) := (fair_nil s.guards_readLoop).leave true
  obtain (- | ⟨byte, bytes⟩) | code := rn
  · exact hstop.asked ⟨rfl, nofun⟩ hlast stray enobufs
  · exact (responseReceived_fair s (byte :: bytes)).leave true
  · exact hstop.asked ⟨rfl, nofun⟩ hlast code enobufs

theorem onRelay_fair (fwd : Nat) (w : IoResult Nat) : Fair [] (onRelay s fwd w) := by
  cases w with
  | value size => exact Fair.ite ⟨rfl, fun _ _ => rfl⟩ (finish_fair s)
  | error code => exact Fair.ite ⟨rfl, nofun⟩ (fail_fair s)

theorem onRelayRetry_fair (fwd retry : Nat) (rw : IoResult Nat) :
    Fair [true] (onRelayRetry s fwd retry rw) := by
  have hfail : Fair [true] (leave (fail s)) := (fail_fair s).leave true
  cases rw with
  | value size => exact Fair.ite ((finish_fair s).leave true) hfail
  | error code => exact hfail.asked ⟨rfl, nofun⟩ hfail code retry

end Branches

/-- Every control path. -/
theorem step_fair {s : SessionIo} {input : SessionInput} {stray : IoError} {t : Traced}
    (hstep : step s input stray = some t) : Fair s.phase.guards t := by
  unfold step at hstep
  split at hstep
  next shutdown hphase =>
    obtain rfl := Option.some.inj hstep
    rw [hphase]
    exact onTurn_fair s shutdown
  next n hphase =>
    obtain rfl := Option.some.inj hstep
    rw [hphase]
    exact onRequest_fair s n
  next enobufs rn hphase =>
    obtain rfl := Option.some.inj hstep
    rw [hphase]
    exact onRequestRetry_fair s enobufs rn stray
  next n hphase =>
    obtain rfl := Option.some.inj hstep
    rw [hphase]
    exact onBody_fair s n
  next enobufs rn hphase =>
    obtain rfl := Option.some.inj hstep
    rw [hphase]
    exact onBodyRetry_fair s enobufs rn stray
  next ok hphase =>
    obtain rfl := Option.some.inj hstep
    rw [hphase]
    exact onAcquired_fair s ok
  next n hphase =>
    obtain rfl := Option.some.inj hstep
    rw [hphase]
    exact onLinked_fair s n stray
  next written w hphase =>
    obtain ⟨-, ht⟩ := Option.ite_none_right_eq_some.mp hstep
    obtain rfl := Option.some.inj ht
    rw [hphase]
    exact onWrite_fair s written w
  next written retry rw hphase =>
    obtain ⟨-, ht⟩ := Option.ite_none_right_eq_some.mp hstep
    obtain rfl := Option.some.inj ht
    rw [hphase]
    exact onWriteRetry_fair s written retry rw
  next n hphase =>
    obtain rfl := Option.some.inj hstep
    rw [hphase]
    exact onResponse_fair s n
  next enobufs rn hphase =>
    obtain rfl := Option.some.inj hstep
    rw [hphase]
    exact onResponseRetry_fair s enobufs rn stray
  next fwd w hphase =>
    obtain ⟨-, ht⟩ := Option.ite_none_right_eq_some.mp hstep
    obtain rfl := Option.some.inj ht
    rw [hphase]
    exact onRelay_fair s fwd w
  next fwd retry rw hphase =>
    obtain ⟨-, ht⟩ := Option.ite_none_right_eq_some.mp hstep
    obtain rfl := Option.some.inj ht
    rw [hphase]
    exact onRelayRetry_fair s fwd retry rw
  next => exact nomatch hstep

end Traced

namespace GuardedSession

open GuardOp

def armed (s : GuardedSession) : Nat := s.guards.count true

/-- Between registering and arming, or within `dismiss`. -/
def inPair (s : GuardedSession) : Bool := GuardOp.inPair s.ops

/-- The session waits in a retry, or does what leads into or out of one. -/
def inRetry (s : GuardedSession) : Bool :=
  s.io.phase.isRetry || (!s.ops.isEmpty && s.before.isRetry)

def weight (s : GuardedSession) : Nat := GuardOp.weight s.guards s.ops

/-- What is left to do leads to the guards of the phase, and is nothing to the count
outside the retries. -/
structure Balanced (s : GuardedSession) : Prop where
  resumes : resumes s.guards s.ops = some s.io.phase.guards
  quiet : s.io.phase.isRetry = false → s.before.isRetry = false →
    s.guards.contains true = false ∧ s.ops.all isQuiet = true

variable {s s' : GuardedSession} {change : Int}

theorem fresh_balanced (maxBuf : Nat) :
    (fresh maxBuf).Balanced ∧ (fresh maxBuf).weight = 0 :=
  ⟨⟨rfl, fun _ _ => ⟨rfl, rfl⟩⟩, rfl⟩

theorem io_doOp (hop : s.doOp = some (change, s')) : s'.io = s.io := by
  unfold GuardedSession.doOp at hop
  split at hop
  · exact nomatch hop
  · obtain ⟨result, -, heq⟩ := Option.map_eq_some_iff.mp hop
    obtain ⟨-, rfl⟩ := Prod.mk.inj heq
    rfl

theorem step_hear {input : SessionInput} {stray : IoError}
    (hhear : s.hear input stray = some (change, s')) :
    s.io.step (s.io.hears input stray) = some s'.io := by
  unfold GuardedSession.hear at hhear
  split at hhear
  · exact nomatch hhear
  · obtain ⟨t, hstep, heq⟩ := Option.map_eq_some_iff.mp hhear
    obtain ⟨-, rfl⟩ := Prod.mk.inj heq
    exact Traced.step_io hstep

/-- An operation changes the shared count by what it changes the weight. -/
theorem Balanced.doOp (hs : s.Balanced) (hop : s.doOp = some (change, s')) :
    s'.Balanced ∧ (s'.weight : Int) = s.weight + change := by
  unfold GuardedSession.doOp at hop
  split at hop
  · exact nomatch hop
  next op ops hops =>
    have hresumes := hs.resumes
    rw [hops] at hresumes
    obtain ⟨change', guards', hexec, hnext, hweight⟩ := exec_resumes hresumes
    rw [hexec] at hop
    obtain ⟨rfl, rfl⟩ := Prod.mk.inj (Option.some.inj hop)
    refine ⟨⟨hnext, ?_⟩, ?_⟩
    · intro hphase hbefore
      obtain ⟨hguards, hquiet⟩ := hs.quiet hphase hbefore
      rw [hops, List.all_cons, Bool.and_eq_true] at hquiet
      exact ⟨exec_quiet hquiet.1 hguards hexec, hquiet.2⟩
    · rw [weight, weight, hops]
      exact hweight

/-- The answer of an I/O operation brings new operations for the guards. -/
theorem Balanced.hear (hs : s.Balanced) {input : SessionInput} {stray : IoError}
    (hhear : s.hear input stray = some (change, s')) :
    s'.Balanced ∧ (s'.weight : Int) = s.weight + change := by
  unfold GuardedSession.hear at hhear
  split at hhear
  · exact nomatch hhear
  next hops =>
    obtain ⟨⟨ops, io⟩, hstep, heq⟩ := Option.map_eq_some_iff.mp hhear
    obtain ⟨rfl, rfl⟩ := Prod.mk.inj heq
    have hguards : s.guards = s.io.phase.guards := by
      have hresumes := hs.resumes
      rw [hops, resumes_nil] at hresumes
      exact Option.some.inj hresumes
    have hfair := Traced.step_fair hstep
    rw [← hguards] at hfair
    refine ⟨⟨(resumes_of_settles hfair.settles).1, ?_⟩, ?_⟩
    · intro hphase hbefore
      have hunarmed : s.guards.contains true = false := by
        rw [hguards, ← IoPhase.isRetry_eq]
        exact hbefore
      exact ⟨hunarmed, hfair.quiet hunarmed hphase⟩
    · have hafter := weight_of_settles hfair.settles
      simp only [weight, hafter, hops]
      simp [GuardOp.weight, GuardOp.inPair]

theorem Balanced.work (hs : s.Balanced) {act : GuardedAct}
    (hwork : s.work act = some (change, s')) :
    s'.Balanced ∧ (s'.weight : Int) = s.weight + change := by
  cases act with
  | op => exact hs.doOp hwork
  | input input stray => exact hs.hear hwork

theorem Balanced.weight_le_one (hs : s.Balanced) : s.weight ≤ 1 := by
  refine GuardOp.weight_le_one hs.resumes ?_
  cases s.io.phase <;> simp [IoPhase.guards]

theorem weight_of_unarmed (hguards : s.guards.contains true = false)
    (hpair : s.inPair = false) : s.weight = 0 := by
  have hcount : s.guards.count true = 0 := by
    rw [List.count_eq_zero]
    intro hmem
    rw [List.contains_iff_mem.mpr hmem] at hguards
    exact nomatch hguards
  rw [weight, GuardOp.weight, hcount, show GuardOp.inPair s.ops = false from hpair]
  rfl

theorem inPair_of_quiet (hquiet : s.ops.all isQuiet = true) : s.inPair = false := by
  unfold inPair GuardOp.inPair
  split
  next ops hops => simp [hops, isQuiet] at hquiet
  next ops hops => simp [hops, isQuiet] at hquiet
  next => rfl

theorem Balanced.weight_of_idle (hs : s.Balanced) (hidle : s.inRetry = false) :
    s.weight = 0 := by
  simp only [inRetry, Bool.or_eq_false_iff, Bool.and_eq_false_iff] at hidle
  obtain ⟨hphase, hnone | hbefore⟩ := hidle
  · have hops : s.ops = [] := by simpa using hnone
    refine weight_of_unarmed ?_ (by simp [inPair, hops, GuardOp.inPair])
    have hresumes := hs.resumes
    rw [hops, resumes_nil] at hresumes
    rw [Option.some.inj hresumes, ← IoPhase.isRetry_eq]
    exact hphase
  · obtain ⟨hguards, hquiet⟩ := hs.quiet hphase hbefore
    exact weight_of_unarmed hguards (inPair_of_quiet hquiet)

/-- The operations end as those of a session without guards. -/
theorem run_plays (word : List (CrewAct Nat GuardedAct)) {last : SharedCount GuardedSession}
    (hrun : machine.run word = some last) :
    ∀ s ∈ last.workers,
      ∃ maxBuf inputs, (SessionIo.machine maxBuf).run inputs = some s.io := by
  refine SharedCount.run_good
    (fun s => ∃ maxBuf inputs, (SessionIo.machine maxBuf).run inputs = some s.io)
    ?_ ?_ word hrun
  · intro maxBuf
    exact ⟨maxBuf, [], rfl⟩
  · intro s act change s' hplays hwork
    obtain ⟨maxBuf, inputs, hinputs⟩ := hplays
    cases act with
    | op =>
        have hsame : s'.io = s.io := io_doOp hwork
        exact ⟨maxBuf, inputs, hsame ▸ hinputs⟩
    | input input stray =>
        refine ⟨maxBuf, inputs ++ [s.io.hears input stray], ?_⟩
        rw [Machine.run_concat, hinputs]
        exact step_hear hwork

theorem run_accounted (word : List (CrewAct Nat GuardedAct))
    {last : SharedCount GuardedSession} (hrun : machine.run word = some last) :
    last.Accounted Balanced weight :=
  SharedCount.run_accounted fresh_balanced (fun _ _ _ _ hs hwork => hs.work hwork) word hrun

theorem sum_weight (sessions : List GuardedSession) :
    (sessions.map weight).sum = (sessions.map armed).sum + sessions.countP inPair := by
  induction sessions with
  | nil => rfl
  | cons s rest ih =>
      rw [List.map_cons, List.sum_cons, ih, List.map_cons, List.sum_cons, List.countP_cons,
        weight, GuardOp.weight, armed, inPair]
      omega

/-- However the sessions interleave and their operations end, the count is the number
of the armed guards, up to the pairs that are half done; it does not go below zero, and
it is zero when no session is in a retry. -/
theorem retries_balanced (word : List (CrewAct Nat GuardedAct))
    {last : SharedCount GuardedSession} (hrun : machine.run word = some last) :
    last.count = ((last.workers.map armed).sum + last.workers.countP inPair : Nat) ∧
      ((∀ s ∈ last.workers, s.inPair = false) →
        last.count = ((last.workers.map armed).sum : Nat)) ∧
      (0 ≤ last.count ∧ last.count ≤ last.workers.length) ∧
      ((∀ s ∈ last.workers, s.inRetry = false) → last.count = 0) := by
  have hlast := run_accounted word hrun
  have hcount := hlast.count
  rw [sum_weight] at hcount
  refine ⟨hcount, ?_, ?_, ?_⟩
  · intro hpairs
    have hnone : last.workers.countP inPair = 0 := by
      rw [List.countP_eq_zero]
      intro s hs
      simp [hpairs s hs]
    rw [hcount, hnone, Nat.add_zero]
  · exact hlast.bounds fun s hs => (hlast.good s hs).weight_le_one
  · intro hidle
    exact hlast.count_eq_zero fun s hs => (hlast.good s hs).weight_of_idle (hidle s hs)

/-- Two sessions whose reads have no submission entry; one of them is tried again and
brings no bytes. -/
def twoRetries : List (CrewAct Nat GuardedAct) :=
  let enters (i : Nat) : List (CrewAct Nat GuardedAct) :=
    [.act i (.input (.turn false) .other), .act i .op,
      .act i (.input (.read (.error .enobufs)) .other), .act i .op, .act i .op, .act i .op,
      .act i .op, .act i .op, .act i .op, .act i .op]
  [.join 65536, .join 65536] ++ enters 0 ++ enters 1 ++
    [.act 1 (.input (.read (.value [])) .other), .act 1 .op, .act 1 .op]

theorem twoRetries_run :
    (machine.run twoRetries).map (fun c => (c.count, c.workers.map armed)) =
      some (1, [1, 0]) := by
  decide +kernel

theorem retries_balanced_two :
    ∃ last, machine.run twoRetries = some last ∧ last.workers.map armed = [1, 0] ∧
      last.count = ((last.workers.map armed).sum + last.workers.countP inPair : Nat) := by
  obtain ⟨last, hrun, hpair⟩ := Option.map_eq_some_iff.mp twoRetries_run
  exact ⟨last, hrun, (Prod.mk.inj hpair).2, (retries_balanced twoRetries hrun).1⟩

end GuardedSession

end UltraNet

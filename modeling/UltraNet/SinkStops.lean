/-
A sink that refuses a batch: nothing is read or delivered after it, and the
error is 0 unless the batch was given away on the way out of another error.
-/
import UltraNet.CollectSteps

namespace UltraNet

universe u

section Calls

variable {B : Type u} (accept : List B → Bool)

/-- Every call so far was answered with true. -/
def Granted (calls : List B) : Prop :=
  ∀ history, history <+: calls → history ≠ [] → accept history = true

/-- The last call was answered with false. -/
def Declined (calls : List B) : Prop :=
  ∃ before last, calls = before ++ [last] ∧ Granted accept before ∧ accept calls = false

variable {accept} {calls : List B}

theorem granted_nil : Granted accept [] :=
  fun _ hhistory hne => absurd (List.prefix_nil.mp hhistory) hne

theorem Granted.append (hgranted : Granted accept calls) {last : B}
    (hlast : accept (calls ++ [last]) = true) : Granted accept (calls ++ [last]) := by
  intro history hhistory hne
  rcases List.prefix_concat_iff.mp hhistory with rfl | hearlier
  · exact hlast
  · exact hgranted history hearlier hne

theorem Granted.declined (hgranted : Granted accept calls) {last : B}
    (hlast : accept (calls ++ [last]) = false) : Declined accept (calls ++ [last]) :=
  ⟨calls, last, rfl, hgranted, hlast⟩

/-- What the answer to the last call, or to none, says about all of them. -/
def Answered (accept : List B → Bool) (ok : Bool) (calls : List B) : Prop :=
  if ok then Granted accept calls else Declined accept calls

theorem Granted.answered (hgranted : Granted accept calls) (last : B) :
    Answered accept (accept (calls ++ [last])) (calls ++ [last]) := by
  rw [Answered]
  split
  · rename_i hlast
    exact hgranted.append hlast
  · rename_i hlast
    exact hgranted.declined (Bool.eq_false_iff.mpr hlast)

theorem Answered.of_false_iff {ok : Bool} {R : Prop} (hanswered : Answered accept ok calls)
    (hanswer : ok = false ↔ R) :
    (R → Declined accept calls) ∧ (¬ R → Granted accept calls) := by
  rw [Answered] at hanswered
  constructor
  · intro hrefusing
    rwa [hanswer.mpr hrefusing] at hanswered
  · intro hnot
    have htrue : ok = true := by
      rw [← Bool.not_eq_false]
      exact fun hfalse => hnot (hanswer.mp hfalse)
    rwa [htrue] at hanswered

/-- Only the last call was answered with false. -/
theorem Declined.last (hdeclined : Declined accept calls) {history : List B}
    (hhistory : history <+: calls) (hne : history ≠ []) (hfalse : accept history = false) :
    history = calls := by
  obtain ⟨before, last, rfl, hgranted, -⟩ := hdeclined
  rcases List.prefix_concat_iff.mp hhistory with hall | hearlier
  · exact hall
  · rw [hgranted history hearlier hne] at hfalse
    cases hfalse

theorem Declined.ne_nil (hdeclined : Declined accept calls) : calls ≠ [] := by
  obtain ⟨before, last, rfl, -⟩ := hdeclined
  simp

end Calls

section Points

variable {B C A : Type u} (delivered : C → List B) (sink : List B → Bool)

/-- Behind the first false there is no other call and no step, and the error is
0. -/
def Heeded (M : Machine (CollectPoint C) A) (p : CollectPoint C) : Prop :=
  ∀ history, history <+: delivered p.collector → history ≠ [] → sink history = false →
    history = delivered p.collector ∧ p.phase = .returned 0 ∧
      ∀ action, M.step p action = none

/-- The sink wants more, or the collector has returned without an error. -/
def Obedient (p : CollectPoint C) : Prop :=
  Granted sink (delivered p.collector) ∨
    (Declined sink (delivered p.collector) ∧ p.phase = .returned 0)

/-- The collector has returned an error from the step in which the sink
refused. -/
def Overridden (p : CollectPoint C) : Prop :=
  Declined sink (delivered p.collector) ∧ ∃ err, err ≠ 0 ∧ p.phase = .returned err

variable {delivered sink} {M : Machine (CollectPoint C) A} {p : CollectPoint C}
  {next : C}

/-- The collector goes on unless the sink refuses. -/
theorem obedient_ofResult {ok : Bool} (hanswered : Answered sink ok (delivered next)) :
    Obedient delivered sink (.ofResult (if ok then none else some 0, next)) := by
  cases ok with
  | true => exact .inl hanswered
  | false => exact .inr ⟨hanswered, rfl⟩

/-- The collector returns, and the answer of the sink does not count. -/
theorem obedient_exit {R : Prop} {err : Nat}
    (hanswer : (R → Declined sink (delivered next)) ∧ (¬ R → Granted sink (delivered next)))
    (hexit : ¬ (err ≠ 0 ∧ R)) : Obedient delivered sink ⟨.returned err, next⟩ := by
  by_cases hrefusing : R
  · have hzero : err = 0 := by
      by_contra herr
      exact hexit ⟨herr, hrefusing⟩
    exact .inr ⟨hanswer.1 hrefusing, congrArg _ hzero⟩
  · exact .inl (hanswer.2 hrefusing)

theorem Obedient.heeded (hobedient : Obedient delivered sink p)
    (hreturned : ∀ q : CollectPoint C, q.phase = .returned 0 →
      ∀ action, M.step q action = none) : Heeded delivered sink M p := by
  intro history hhistory hne hfalse
  rcases hobedient with hgranted | ⟨hdeclined, hphase⟩
  · rw [hgranted history hhistory hne] at hfalse
    cases hfalse
  · exact ⟨hdeclined.last hhistory hne hfalse, hphase, hreturned p hphase⟩

theorem Overridden.not_heeded (hoverridden : Overridden delivered sink p) :
    ¬ Heeded delivered sink M p := by
  obtain ⟨hdeclined, err, herr, hphase⟩ := hoverridden
  intro hheeded
  have hne := hdeclined.ne_nil
  obtain ⟨before, last, -, -, hfalse⟩ := hdeclined
  obtain ⟨-, hzero, -⟩ := hheeded _ (List.prefix_refl _) hne hfalse
  rw [hphase] at hzero
  exact herr (CollectPhase.returned.inj hzero)

/-- The machine stops where it returns, its guarded steps obey the sink and the
others override it. -/
theorem heeded_iff_meets {guard : CollectPoint C → A → Prop}
    (hreturned : ∀ q : CollectPoint C, ∀ err, q.phase = .returned err →
      ∀ action, M.step q action = none)
    (hkeep : ∀ q action next, Granted sink (delivered q.collector) → guard q action →
      M.step q action = some next → Obedient delivered sink next)
    (hbreak : ∀ q action next, Granted sink (delivered q.collector) → ¬ guard q action →
      M.step q action = some next → Overridden delivered sink next)
    (hstart : delivered M.start.collector = []) (word : List A)
    (hrun : M.run word = some p) :
    Heeded delivered sink M p ↔ M.Meets guard word := by
  have hgranted : ∀ q action next, Obedient delivered sink q →
      M.step q action = some next → Granted sink (delivered q.collector) := by
    intro q action next hobedient hstep
    rcases hobedient with hgranted | ⟨-, hphase⟩
    · exact hgranted
    · rw [hreturned q 0 hphase action] at hstep
      cases hstep
  have hinit : Obedient delivered sink M.start := by
    left
    rw [hstart]
    exact granted_nil
  obtain ⟨hgood, hbad⟩ :
      (M.MeetsFrom guard M.start word → Obedient delivered sink p) ∧
        (¬ M.MeetsFrom guard M.start word → Overridden delivered sink p) :=
    M.runFrom_split
    (fun q action next hq hguard hstep =>
      hkeep q action next (hgranted q action next hq hstep) hguard hstep)
    (fun q action next hq hguard hstep =>
      hbreak q action next (hgranted q action next hq hstep) hguard hstep)
    (fun q action next hq hstep => by
      obtain ⟨-, err, -, hphase⟩ := hq
      rw [hreturned q err hphase action] at hstep
      cases hstep)
    word hinit hrun
  constructor
  · intro hheeded
    by_contra hnot
    exact (hbad hnot).not_heeded hheeded
  · intro hmeets
    exact (hgood hmeets).heeded fun q hphase => hreturned q 0 hphase

end Points

namespace Collector

variable {cfg : CollectConfig} {sink : BatchSink} {c : Collector}

/-- The sink would refuse the batch. -/
def Refusing (sink : BatchSink) (c : Collector) : Prop :=
  c.batch.size ≠ 0 ∧ sink (c.delivered ++ [c.batch.records]) = false

theorem deliver_answered (hgranted : Granted sink c.delivered) :
    Answered sink (c.deliver sink).1 (c.deliver sink).2.delivered := by
  unfold deliver
  split
  · exact hgranted
  · exact hgranted.answered c.batch.records

theorem deliver_refusing (hgranted : Granted sink c.delivered) :
    (c.Refusing sink → Declined sink (c.deliver sink).2.delivered) ∧
      (¬ c.Refusing sink → Granted sink (c.deliver sink).2.delivered) := by
  refine (deliver_answered hgranted).of_false_iff ?_
  unfold deliver Refusing
  split
  · rename_i hempty
    simp [hempty]
  · rename_i hsize
    simp [hsize]

theorem deliverBefore_answered (hgranted : Granted sink c.delivered) (len : Nat) :
    Answered sink (c.deliverBefore cfg sink len).1
      (c.deliverBefore cfg sink len).2.delivered := by
  unfold deliverBefore
  split
  · exact deliver_answered hgranted
  · exact hgranted

theorem deliverFull_answered (hgranted : Granted sink c.delivered) :
    Answered sink (c.deliverFull cfg sink).1 (c.deliverFull cfg sink).2.delivered := by
  unfold deliverFull
  split
  · exact deliver_answered hgranted
  · exact hgranted

/-- The steps that return an error and give the batch away before. -/
def ErrorExit (cfg : CollectConfig) (p : CollectPoint Collector) :
    TcpAction → Prop
  | .read (.failed code) => p.phase = .reading ∧ code ≠ 0
  | .read .closed => p.phase = .reading ∧ p.collector.pending ≠ []
  | .cut => p.phase = .cutting ∧ 4 ≤ p.collector.pending.length ∧
      BadLength cfg p.collector.pending
  | _ => False

/-- No batch that the sink refuses is given away on the way out of an error. -/
def AsksInTime (cfg : CollectConfig) (sink : BatchSink) (p : CollectPoint Collector)
    (action : TcpAction) : Prop :=
  ¬ (ErrorExit cfg p action ∧ p.collector.Refusing sink)

theorem cutRecord_obedient (hgranted : Granted sink c.delivered)
    (hexit : ¬ (4 ≤ c.pending.length ∧ BadLength cfg c.pending ∧ c.Refusing sink)) :
    Obedient delivered sink (c.cutRecord cfg sink) := by
  by_cases hfour : c.pending.length < 4
  · rw [cutRecord, if_pos hfour]
    exact .inl hgranted
  by_cases hlength : BadLength cfg c.pending
  · have hnot : ¬ c.Refusing sink := fun hrefusing =>
      hexit ⟨Nat.not_lt.mp hfour, hlength, hrefusing⟩
    rw [cutRecord, if_neg hfour]
    simp only [if_pos hlength]
    exact .inl ((deliver_refusing hgranted).2 hnot)
  by_cases hshort : c.pending.length < (4 + readLeU32 c.pending).toNat
  · rw [cutRecord, if_neg hfour]
    simp only [if_neg hlength, if_pos hshort]
    exact .inl hgranted
  rw [cutRecord, if_neg hfour]
  simp only [if_neg hlength, if_neg hshort]
  have hbefore : Answered sink (c.deliverBefore cfg sink (readLeU32 c.pending).toNat).1
      (c.deliverBefore cfg sink (readLeU32 c.pending).toNat).2.delivered :=
    deliverBefore_answered hgranted _
  generalize c.deliverBefore cfg sink (readLeU32 c.pending).toNat = answer at hbefore ⊢
  obtain ⟨ok, next⟩ := answer
  cases ok with
  | false => exact .inr ⟨hbefore, rfl⟩
  | true =>
      by_cases hinside : next.pending.length < 4 + (readLeU32 c.pending).toNat
      · simp only [if_pos hinside]
        exact .inl hbefore
      · have hadded : Granted sink (next.addRecord (readLeU32 c.pending)).delivered := hbefore
        have hfull : Answered sink
            ((next.addRecord (readLeU32 c.pending)).deliverFull cfg sink).1
            ((next.addRecord (readLeU32 c.pending)).deliverFull cfg sink).2.delivered :=
          deliverFull_answered hadded
        simp only [if_neg hinside]
        generalize (next.addRecord (readLeU32 c.pending)).deliverFull cfg sink = answer
          at hfull ⊢
        obtain ⟨ok, last⟩ := answer
        cases ok with
        | false => exact .inr ⟨hfull, rfl⟩
        | true => exact .inl hfull

theorem cutRecord_overridden (hgranted : Granted sink c.delivered)
    (hfour : 4 ≤ c.pending.length) (hlength : BadLength cfg c.pending)
    (hrefusing : c.Refusing sink) :
    Overridden delivered sink (c.cutRecord cfg sink) := by
  rw [cutRecord, if_neg (Nat.not_lt.mpr hfour)]
  simp only [if_pos hlength]
  exact ⟨(deliver_refusing hgranted).1 hrefusing, eMSGSIZE, by decide, rfl⟩

theorem step_late_or_timedOut {event : CollectEvent}
    (hevent : event = .timedOut ∨ (event = .late ∧ c.batchOpen = true)) :
    c.step cfg sink event =
      (if (c.deliver sink).1 then none else some 0, (c.deliver sink).2) := by
  have hstep : c.step cfg sink event = c.step cfg sink .timedOut := by
    rcases hevent with rfl | ⟨rfl, hopen⟩
    · rfl
    · exact if_pos hopen
  rw [hstep, step]
  generalize c.deliver sink = answer
  obtain ⟨ok, next⟩ := answer
  cases ok with
  | true => rfl
  | false => rfl

/-- What each step of the machine does with the sink. -/
theorem step_obedient {p next : CollectPoint Collector} {action : TcpAction}
    (hgranted : Granted sink p.collector.delivered) (htime : AsksInTime cfg sink p action)
    (hstep : (tcpMachine cfg sink).step p action = some next) :
    Obedient delivered sink next := by
  obtain ⟨phase, c⟩ := p
  cases action with
  | cut =>
      cases phase with
      | cutting =>
          obtain rfl := Option.some.inj hstep
          exact cutRecord_obedient hgranted fun hexit =>
            htime ⟨⟨rfl, hexit.1, hexit.2.1⟩, hexit.2.2⟩
      | reading => cases hstep
      | returned err => cases hstep
      | outside => cases hstep
  | read event =>
      cases phase with
      | cutting => cases hstep
      | returned err => cases hstep
      | outside => cases hstep
      | reading =>
          cases event with
          | data bytes =>
              obtain rfl := Option.some.inj hstep
              exact .inl hgranted
          | timedOut =>
              obtain rfl := Option.some.inj hstep
              rw [step_late_or_timedOut (.inl rfl)]
              exact obedient_ofResult (deliver_answered hgranted)
          | late =>
              obtain rfl := Option.some.inj hstep
              by_cases hopen : c.batchOpen = true
              · rw [step_late_or_timedOut (.inr ⟨rfl, hopen⟩)]
                exact obedient_ofResult (deliver_answered hgranted)
              · simp only [step, if_neg hopen]
                exact .inl hgranted
          | failed code =>
              obtain rfl := Option.some.inj hstep
              exact obedient_exit (deliver_refusing hgranted) fun hexit =>
                htime ⟨⟨rfl, hexit.1⟩, hexit.2⟩
          | closed =>
              obtain rfl := Option.some.inj hstep
              exact obedient_exit (deliver_refusing hgranted) fun hexit =>
                htime ⟨⟨rfl, fun hempty => hexit.1 (if_pos hempty)⟩, hexit.2⟩

theorem step_overridden {p next : CollectPoint Collector} {action : TcpAction}
    (hgranted : Granted sink p.collector.delivered) (htime : ¬ AsksInTime cfg sink p action)
    (hstep : (tcpMachine cfg sink).step p action = some next) :
    Overridden delivered sink next := by
  obtain ⟨phase, c⟩ := p
  obtain ⟨hexit, hrefusing⟩ := not_not.mp htime
  cases action with
  | cut =>
      obtain ⟨hphase, hfour, hlength⟩ := hexit
      obtain rfl : phase = .cutting := hphase
      obtain rfl := Option.some.inj hstep
      exact cutRecord_overridden hgranted hfour hlength hrefusing
  | read event =>
      cases event with
      | data bytes => cases hexit
      | timedOut => cases hexit
      | late => cases hexit
      | failed code =>
          obtain ⟨hphase, hcode⟩ := hexit
          obtain rfl : phase = .reading := hphase
          obtain rfl := Option.some.inj hstep
          exact ⟨(deliver_refusing hgranted).1 hrefusing, code, hcode, rfl⟩
      | closed =>
          obtain ⟨hphase, hpending⟩ := hexit
          obtain rfl : phase = .reading := hphase
          obtain rfl := Option.some.inj hstep
          have herr : (if c.pending = [] then 0 else ePROTO) ≠ 0 := by
            rw [if_neg hpending]
            decide
          exact ⟨(deliver_refusing hgranted).1 hrefusing, _, herr, rfl⟩

end Collector

namespace DatagramCollector

variable {P : Type u} {cfg : CollectConfig} {sink : List (DatagramBatch P) → Bool}
  {c : DatagramCollector P}

def Refusing (sink : List (DatagramBatch P) → Bool) (c : DatagramCollector P) : Prop :=
  c.batch.size ≠ 0 ∧ sink (c.delivered ++ [c.batched]) = false

theorem deliver_answered (hgranted : Granted sink c.delivered) :
    Answered sink (c.deliver sink).1 (c.deliver sink).2.delivered := by
  unfold deliver
  split
  · exact hgranted
  · exact hgranted.answered c.batched

theorem deliver_refusing (hgranted : Granted sink c.delivered) :
    (c.Refusing sink → Declined sink (c.deliver sink).2.delivered) ∧
      (¬ c.Refusing sink → Granted sink (c.deliver sink).2.delivered) := by
  refine (deliver_answered hgranted).of_false_iff ?_
  unfold deliver Refusing
  split
  · rename_i hempty
    simp [hempty]
  · rename_i hsize
    simp [hsize]

theorem deliverBefore_answered (hgranted : Granted sink c.delivered) (len : Nat) :
    Answered sink (c.deliverBefore cfg sink len).1
      (c.deliverBefore cfg sink len).2.delivered := by
  unfold deliverBefore
  split
  · exact deliver_answered hgranted
  · exact hgranted

theorem deliverFull_answered (hgranted : Granted sink c.delivered) :
    Answered sink (c.deliverFull cfg sink).1 (c.deliverFull cfg sink).2.delivered := by
  unfold deliverFull
  split
  · exact deliver_answered hgranted
  · exact hgranted

/-- The only error of `collect_udp` is one of its receive. -/
def ErrorExit (p : CollectPoint (DatagramCollector P)) : DatagramEvent P → Prop
  | .failed code => p.phase = .reading ∧ code ≠ 0
  | _ => False

def AsksInTime (sink : List (DatagramBatch P) → Bool)
    (p : CollectPoint (DatagramCollector P)) (event : DatagramEvent P) : Prop :=
  ¬ (ErrorExit p event ∧ p.collector.Refusing sink)

theorem step_datagram_obedient (hgranted : Granted sink c.delivered) (bytes : List UInt8)
    (source : Option P) :
    Obedient delivered sink (.ofResult (c.step cfg sink (.datagram bytes source))) := by
  have hbefore : Answered sink (c.deliverBefore cfg sink bytes.length).1
      (c.deliverBefore cfg sink bytes.length).2.delivered := deliverBefore_answered hgranted _
  rw [step]
  generalize c.deliverBefore cfg sink bytes.length = answer at hbefore ⊢
  obtain ⟨ok, next⟩ := answer
  cases ok with
  | false => exact .inr ⟨hbefore, rfl⟩
  | true =>
      have hadded : Granted sink (next.addRecord bytes source).delivered := hbefore
      have hfull : Answered sink ((next.addRecord bytes source).deliverFull cfg sink).1
          ((next.addRecord bytes source).deliverFull cfg sink).2.delivered :=
        deliverFull_answered hadded
      simp only
      generalize (next.addRecord bytes source).deliverFull cfg sink = answer at hfull ⊢
      obtain ⟨ok, last⟩ := answer
      cases ok with
      | false => exact .inr ⟨hfull, rfl⟩
      | true => exact .inl hfull

theorem step_late_or_timedOut {event : DatagramEvent P}
    (hevent : event = .timedOut ∨ (event = .late ∧ c.batchOpen = true)) :
    c.step cfg sink event =
      (if (c.deliver sink).1 then none else some 0, (c.deliver sink).2) := by
  have hstep : c.step cfg sink event = c.step cfg sink .timedOut := by
    rcases hevent with rfl | ⟨rfl, hopen⟩
    · rfl
    · exact if_pos hopen
  rw [hstep, step]
  generalize c.deliver sink = answer
  obtain ⟨ok, next⟩ := answer
  cases ok with
  | true => rfl
  | false => rfl

theorem step_obedient {p next : CollectPoint (DatagramCollector P)}
    {event : DatagramEvent P} (hgranted : Granted sink p.collector.delivered)
    (htime : AsksInTime sink p event)
    (hstep : (udpMachine cfg sink).step p event = some next) :
    Obedient delivered sink next := by
  obtain ⟨phase, c⟩ := p
  cases phase with
  | cutting => cases hstep
  | returned err => cases hstep
  | outside => cases hstep
  | reading =>
      obtain rfl := Option.some.inj hstep
      cases event with
      | late =>
          by_cases hopen : c.batchOpen = true
          · rw [step_late_or_timedOut (.inr ⟨rfl, hopen⟩)]
            exact obedient_ofResult (deliver_answered hgranted)
          · simp only [step, if_neg hopen]
            exact .inl hgranted
      | timedOut =>
          rw [step_late_or_timedOut (.inl rfl)]
          exact obedient_ofResult (deliver_answered hgranted)
      | datagram bytes source => exact step_datagram_obedient hgranted bytes source
      | truncated => exact .inl hgranted
      | failed code =>
          exact obedient_exit (deliver_refusing hgranted) fun hexit =>
            htime ⟨⟨rfl, hexit.1⟩, hexit.2⟩

theorem step_overridden {p next : CollectPoint (DatagramCollector P)}
    {event : DatagramEvent P} (hgranted : Granted sink p.collector.delivered)
    (htime : ¬ AsksInTime sink p event)
    (hstep : (udpMachine cfg sink).step p event = some next) :
    Overridden delivered sink next := by
  obtain ⟨phase, c⟩ := p
  obtain ⟨hexit, hrefusing⟩ := not_not.mp htime
  cases event with
  | late => cases hexit
  | timedOut => cases hexit
  | datagram bytes source => cases hexit
  | truncated => cases hexit
  | failed code =>
      obtain ⟨hphase, hcode⟩ := hexit
      obtain rfl : phase = .reading := hphase
      obtain rfl := Option.some.inj hstep
      exact ⟨(deliver_refusing hgranted).1 hrefusing, code, hcode, rfl⟩

end DatagramCollector

theorem tcpMachine_returned (cfg : CollectConfig) (sink : BatchSink)
    (p : CollectPoint Collector) (err : Nat) (hphase : p.phase = .returned err)
    (action : TcpAction) : (tcpMachine cfg sink).step p action = none := by
  obtain ⟨phase, c⟩ := p
  obtain rfl : phase = .returned err := hphase
  cases action with
  | cut => rfl
  | read event => cases event <;> rfl

theorem udpMachine_returned {P : Type u} (cfg : CollectConfig)
    (sink : List (DatagramBatch P) → Bool) (p : CollectPoint (DatagramCollector P))
    (err : Nat) (hphase : p.phase = .returned err) (event : DatagramEvent P) :
    (udpMachine cfg sink).step p event = none := by
  obtain ⟨phase, c⟩ := p
  obtain rfl : phase = .returned err := hphase
  rfl

/-- The sink has the last word in just the runs in which no batch that it would
refuse is left when an error ends them. -/
theorem sink_false_final_iff {P : Type u} (cfg : CollectConfig) :
    (∀ (sink : BatchSink) word last, (tcpMachine cfg sink).run word = some last →
      (Heeded Collector.delivered sink (tcpMachine cfg sink) last ↔
        (tcpMachine cfg sink).Meets (Collector.AsksInTime cfg sink) word)) ∧
    ∀ (sink : List (DatagramBatch P) → Bool) word last,
      (udpMachine cfg sink).run word = some last →
      (Heeded DatagramCollector.delivered sink (udpMachine cfg sink) last ↔
        (udpMachine cfg sink).Meets (DatagramCollector.AsksInTime sink) word) := by
  constructor
  · intro sink word last hrun
    exact heeded_iff_meets (tcpMachine_returned cfg sink)
      (fun _ _ _ => Collector.step_obedient) (fun _ _ _ => Collector.step_overridden)
      rfl word hrun
  · intro sink word last hrun
    exact heeded_iff_meets (udpMachine_returned cfg sink)
      (fun _ _ _ => DatagramCollector.step_obedient)
      (fun _ _ _ => DatagramCollector.step_overridden) rfl word hrun

/-- A sink that wants one batch only, in time. -/
theorem sink_false_final_in_time :
    let cfg : CollectConfig := ⟨1, 100, 5, 10⟩
    let word := [TcpAction.read (.data [1, 0, 0, 0, 7, 1, 0, 0, 0, 8]), .cut]
    (∃ last, (tcpMachine cfg fun _ => false).run word = some last ∧
      Heeded Collector.delivered (fun _ => false) (tcpMachine cfg fun _ => false) last) ∧
    ∃ last, (udpMachine cfg fun _ => false).run
        [DatagramEvent.truncated, .datagram [7] (some ())] = some last ∧
      Heeded DatagramCollector.delivered (fun _ => false)
        (udpMachine cfg fun _ => false) last := by
  intro cfg word
  have hmeets : (tcpMachine cfg fun _ => false).Meets
      (Collector.AsksInTime cfg fun _ => false) word := by
    refine ⟨?_, ?_, trivial⟩
    · rintro ⟨hexit, -⟩
      exact hexit
    · rintro ⟨⟨-, -, hlength⟩, -⟩
      revert hlength
      decide
  have hreceived : (udpMachine cfg fun _ => false).Meets
      (DatagramCollector.AsksInTime fun _ => false)
      [DatagramEvent.truncated, .datagram [7] (some ())] := by
    refine ⟨?_, ?_, trivial⟩
    · rintro ⟨hexit, -⟩
      exact hexit
    · rintro ⟨hexit, -⟩
      exact hexit
  have hfinal := sink_false_final_iff (P := Unit) cfg
  exact ⟨⟨_, rfl, (hfinal.1 (fun _ => false) word _ rfl).mpr hmeets⟩,
    _, rfl, (hfinal.2 (fun _ => false) _ _ rfl).mpr hreceived⟩

/-- The sink refuses a record whose batch the end of the stream has delivered,
and `collect_tcp` still reports the byte that is left over. -/
theorem sink_false_overridden :
    let cfg : CollectConfig := ⟨2, 100, 5, 10⟩
    let word := [TcpAction.read (.data [1, 0, 0, 0, 7, 9]), .cut, .cut, .read .closed]
    ∃ last, (tcpMachine cfg fun _ => false).run word = some last ∧
      last.collector.delivered = [[[7]]] ∧ last.phase = .returned ePROTO ∧
      ¬ Heeded Collector.delivered (fun _ => false) (tcpMachine cfg fun _ => false) last := by
  intro cfg word
  refine ⟨_, rfl, rfl, rfl, ?_⟩
  intro hheeded
  have hzero := (hheeded [[[7]]] (List.prefix_refl _) (by decide) rfl).2.1
  exact absurd hzero (by decide)

end UltraNet

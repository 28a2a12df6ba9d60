/-
Record lengths are sizes of 64 bits in memory and of 32 bits on the stream: the
configurations for which the two never differ.
-/
import UltraNet.CollectSteps
import UltraNet.EmitGroups

namespace UltraNet

/-- `emit_tcp` puts a record that it accepts behind its length in four bytes. -/
def EncodesLengths (cfg : CollectConfig) : Prop :=
  ∀ (e : SpanEmitter) (record : RecordSpan), ¬ record.Invalid cfg →
    ∃ lengthBytes, lengthBytes.length = 4 ∧ leNat lengthBytes = record.size ∧
      (e.append record).group.buf = e.group.buf ++ lengthBytes ++ record.bytes

/-- `collect_tcp` adds four to a length that it accepts without wrapping, a
record that it takes ends in `pending`, and nothing else is copied. -/
def CutsInside (cfg : CollectConfig) : Prop :=
  ∀ (sink : BatchSink) word p, (tcpMachine cfg sink).run word = some p →
    p.phase ≠ .outside ∧
      (p.phase = .cutting → 4 ≤ p.collector.pending.length →
        ¬ Collector.BadLength cfg p.collector.pending →
        let len := readLeU32 p.collector.pending
        (4 + len).toNat = 4 + len.toNat ∧
          (¬ p.collector.pending.length < (4 + len).toNat →
            4 + len.toNat ≤ p.collector.pending.length))

/-- The prefix holds the length modulo 2^32. -/
theorem encodesLengths_iff (cfg : CollectConfig) :
    EncodesLengths cfg ↔ cfg.maxRecordBytes < 2 ^ 32 := by
  constructor
  · intro hencodes
    by_contra hlarge
    obtain ⟨bytes, hbytes⟩ : ∃ bytes : List UInt8, bytes.length = 2 ^ 32 :=
      ⟨List.replicate _ 0, List.length_replicate⟩
    let record : RecordSpan := ⟨some bytes, 2 ^ 32, by
      intro other hother
      rw [← Option.some.inj hother]
      exact hbytes⟩
    have hvalid : ¬ record.Invalid cfg := by
      rintro (hzero | hlong | hnull)
      · have hpos : (2 : Nat) ^ 32 ≠ 0 := by decide
        exact hpos hzero
      · exact hlarge hlong
      · cases hnull
    obtain ⟨lengthBytes, hlength, hvalue, hbuf⟩ := hencodes .init record hvalid
    have hlt := leNat_lt lengthBytes
    rw [hvalue, hlength] at hlt
    have hpow : ¬ (2 : Nat) ^ 32 < 256 ^ 4 := by decide
    exact hpow hlt
  · intro hmax e record hvalid
    have hsize := (RecordSpan.legal_bytes hvalid).2.2
    refine ⟨leBytes 4 record.size, length_leBytes 4 _, ?_, ?_⟩
    · rw [leNat_leBytes]
      exact Nat.mod_eq_of_lt (Nat.lt_of_le_of_lt hsize hmax)
    · show e.group.buf ++ Emitter.recordWire record.bytes = _
      rw [RecordSpan.recordWire_bytes hmax hvalid, RecordSpan.frame, List.append_assoc]

namespace Collector

variable {cfg : CollectConfig}

theorem ofResult_inside (result : Option Nat × Collector) :
    (CollectPoint.ofResult result).phase ≠ .outside := by
  obtain ⟨result, next⟩ := result
  cases result with
  | none => exact CollectPhase.noConfusion
  | some err => exact CollectPhase.noConfusion

theorem cutRecord_inside (hmax : cfg.maxRecordBytes + 4 < 2 ^ 32) (sink : BatchSink)
    (c : Collector) : (c.cutRecord cfg sink).phase ≠ .outside := by
  rcases cutRecord_cases hmax sink c with ⟨next, hcut, -⟩ | ⟨result, hcut, -⟩
  · rw [hcut]
    exact CollectPhase.noConfusion
  · rw [hcut]
    exact ofResult_inside result

theorem step_inside (hmax : cfg.maxRecordBytes + 4 < 2 ^ 32) {sink : BatchSink}
    {p next : CollectPoint Collector} {action : TcpAction}
    (hstep : (tcpMachine cfg sink).step p action = some next) :
    next.phase ≠ .outside := by
  obtain ⟨phase, c⟩ := p
  cases action with
  | cut =>
      cases phase with
      | cutting =>
          obtain rfl := Option.some.inj hstep
          exact cutRecord_inside hmax sink c
      | reading => cases hstep
      | returned err => cases hstep
      | outside => cases hstep
  | read event =>
      cases phase with
      | cutting => cases hstep
      | returned err => cases hstep
      | outside => cases hstep
      | reading =>
          cases event with
          | data bytes =>
              obtain rfl := Option.some.inj hstep
              exact CollectPhase.noConfusion
          | late | timedOut | failed | closed =>
              obtain rfl := Option.some.inj hstep
              exact ofResult_inside _

/-- A length of which no more than the four bytes have come: with four it is 0
in 32 bits. -/
def wrapping : List UInt8 := [252, 255, 255, 255]

theorem cutRecord_wrapping (hcfg : 2 ^ 32 ≤ cfg.maxRecordBytes + 4) (sink : BatchSink) :
    ({ Collector.init with pending := wrapping }.cutRecord cfg sink).phase =
      .outside := by
  have hvalue : readLeU32 wrapping = 4294967292 := by decide
  have hlength : ¬ BadLength cfg wrapping := by
    rw [BadLength, hvalue]
    rintro (hzero | hlong)
    · exact absurd hzero (by decide)
    · have : (4294967292 : UInt32).toNat = 4294967292 := rfl
      omega
  have hbefore : ({ Collector.init with pending := wrapping }).deliverBefore cfg sink
        (readLeU32 wrapping).toNat =
      (true, { Collector.init with pending := wrapping }) := by
    rw [deliverBefore]
    exact if_neg fun hfull => absurd hfull.1 (Nat.lt_irrefl 0)
  have hfour : ¬ wrapping.length < 4 := by decide
  have hshort : ¬ wrapping.length < (4 + readLeU32 wrapping).toNat := by decide
  have houtside : wrapping.length < 4 + (readLeU32 wrapping).toNat := by decide
  simp only [cutRecord, if_neg hfour, if_neg hlength, if_neg hshort, hbefore,
    if_pos houtside]

end Collector

/-- Four bytes on the stream are enough for the loop to leave `pending`. -/
theorem run_wrapping {cfg : CollectConfig} (hcfg : configOk cfg = true)
    (hlarge : 2 ^ 32 ≤ cfg.maxRecordBytes + 4) (sink : BatchSink) :
    ∃ p, (tcpMachine cfg sink).run [.read (.data Collector.wrapping), .cut] = some p ∧
      p.phase = .outside := by
  rw [Machine.run, tcpMachine_start hcfg]
  exact ⟨_, rfl, Collector.cutRecord_wrapping hlarge sink⟩

/-- Both ends have the arithmetic right for just the configurations whose
lengths fit with their prefix into 32 bits. -/
theorem record_lengths_iff (cfg : CollectConfig) (hcfg : configOk cfg = true) :
    EncodesLengths cfg ∧ CutsInside cfg ↔ cfg.maxRecordBytes + 4 < 2 ^ 32 := by
  constructor
  · rintro ⟨-, hinside⟩
    by_contra hlarge
    obtain ⟨p, hrun, hphase⟩ :=
      run_wrapping hcfg (Nat.not_lt.mp hlarge) Collector.keepGoing
    exact (hinside _ _ p hrun).1 hphase
  · intro hmax
    refine ⟨(encodesLengths_iff cfg).mpr (by omega), ?_⟩
    intro sink word p hrun
    refine ⟨?_, ?_⟩
    · have hstart : (tcpMachine cfg sink).start.phase ≠ .outside := by
        rw [tcpMachine_start hcfg]
        exact CollectPhase.noConfusion
      exact (tcpMachine cfg sink).run_preserves (I := fun p => p.phase ≠ .outside)
        hstart (fun _ _ _ _ => Collector.step_inside hmax) word hrun
    · intro _ _ hlength
      have hsum := Collector.toNat_four_add hmax hlength
      exact ⟨hsum, fun hlong => hsum ▸ Nat.not_lt.mp hlong⟩

theorem record_lengths_small :
    EncodesLengths ⟨256, 262144, 2, 65536⟩ ∧ CutsInside ⟨256, 262144, 2, 65536⟩ :=
  (record_lengths_iff ⟨256, 262144, 2, 65536⟩ (by decide)).mpr (by decide)

/-- The largest bound that `config_ok` takes. -/
theorem record_lengths_wrap :
    configOk ⟨256, 262144, 2, 2 ^ 64 - 1⟩ = true ∧
      ¬ (EncodesLengths ⟨256, 262144, 2, 2 ^ 64 - 1⟩ ∧
        CutsInside ⟨256, 262144, 2, 2 ^ 64 - 1⟩) := by
  have hcfg : configOk ⟨256, 262144, 2, 2 ^ 64 - 1⟩ = true := by decide
  refine ⟨hcfg, ?_⟩
  rintro ⟨-, hinside⟩
  obtain ⟨p, hrun, hphase⟩ := run_wrapping hcfg (by decide) Collector.keepGoing
  exact (hinside _ _ p hrun).1 hphase

end UltraNet

import PocketConsole.Proofs.CommandLine.Course

namespace PocketConsole

theorem Arguments.overflows_iff {presses : List Press} :
    overflows presses = true ↔ ∃ p ∈ presses, p.frame.toNat + 1 = UInt64.size := by
  simp only [overflows, List.any_eq_true, decide_eq_true_eq]
  refine exists_congr fun p => and_congr_right fun _ => ?_
  have bound : p.frame.toNat < UInt64.size := p.frame.toNat_lt
  omega

namespace Progress

variable {presses : List Press} {elapsed : Duration}

/-- In one of a number of frames the cycles so far are no 64-bit number any more. -/
def CyclesOverflow (presses : List Press) (elapsed : Duration) (n frame : Nat) (p : Progress) : Prop :=
  ∃ k < n, ∃ q, play presses elapsed (k + 1) frame p = some q ∧ UInt64.size ≤ q.cycles

theorem cyclesOverflow_succ_iff {n frame : Nat} {p after : Progress}
    (stepped : p.step presses elapsed frame = some after) :
    CyclesOverflow presses elapsed (n + 1) frame p ↔
      UInt64.size ≤ after.cycles ∨ CyclesOverflow presses elapsed n (frame + 1) after := by
  have later (k : Nat) : play presses elapsed (k + 1) frame p = play presses elapsed k (frame + 1) after := by
    rw [play, stepped]
  constructor
  · rintro ⟨k, bound, q, played, large⟩
    rw [later] at played
    cases k with
    | zero =>
      cases played
      exact .inl large
    | succ k => exact .inr ⟨k, Nat.lt_of_succ_lt_succ bound, q, played, large⟩
  · rintro (large | ⟨k, bound, q, played, large⟩)
    · exact ⟨0, Nat.succ_pos n, after, later 0, large⟩
    · exact ⟨k + 1, Nat.succ_lt_succ bound, q, (later (k + 1)).trans played, large⟩

theorem not_cyclesOverflow_of_endless {n frame : Nat} {p : Progress}
    (endless : p.step presses elapsed frame = none) : ¬ CyclesOverflow presses elapsed n frame p := by
  rintro ⟨k, -, q, played, -⟩
  rw [play, endless] at played
  cases played

/-- One of the sums of a number of frames is no 64-bit number. The frames after those of the presses are worked out in
every frame, whatever its number. -/
def SumOverflows (presses : List Press) (elapsed : Duration) (n frame : Nat) (p : Progress) : Prop :=
  0 < n ∧ (Arguments.overflows presses = true ∨ CyclesOverflow presses elapsed n frame p)

/-- What a number of frames come to with sums of 64 bits. -/
inductive Checked (presses : List Press) (elapsed : Duration) (n frame : Nat) (p : Progress) : Prop
  | fault (host : Host AnyStore) (sum : SumOverflows presses elapsed n frame p)
      (broken : checkedPlay presses elapsed n frame p = .error ⟨.fault, host⟩)
  | endless (host : Host AnyStore) (sums : ¬ SumOverflows presses elapsed n frame p)
      (plain : play presses elapsed n frame p = none)
      (broken : checkedPlay presses elapsed n frame p = .error ⟨.endless, host⟩)
  | whole (q : Progress) (sums : ¬ SumOverflows presses elapsed n frame p)
      (plain : play presses elapsed n frame p = some q)
      (played : checkedPlay presses elapsed n frame p = .ok q)

/-- What comes of a first frame that has an end is what comes of the frames behind it. -/
theorem Checked.of_step {n frame : Nat} {p after : Progress} (fits : ¬ Arguments.overflows presses = true)
    (stepped : p.step presses elapsed frame = some after) (few : ¬ UInt64.size ≤ after.cycles)
    (room : ¬ p.console.isFull = true) (rest : Checked presses elapsed n (frame + 1) after) :
    Checked presses elapsed (n + 1) frame p := by
  have same : checkedPlay presses elapsed (n + 1) frame p = checkedPlay presses elapsed n (frame + 1) after := by
    rw [checkedPlay, if_neg fits, stepped]
    exact if_neg (not_or.2 ⟨room, few⟩)
  have plain : play presses elapsed (n + 1) frame p = play presses elapsed n (frame + 1) after := by
    rw [play, stepped]
  have sums : SumOverflows presses elapsed (n + 1) frame p ↔ SumOverflows presses elapsed n (frame + 1) after := by
    rw [SumOverflows, SumOverflows, cyclesOverflow_succ_iff stepped, or_iff_right few, or_iff_right fits]
    refine and_congr_left ?_
    rintro ⟨k, bound, -⟩
    exact iff_of_true (Nat.succ_pos n) (Nat.zero_lt_of_lt bound)
  cases rest with
  | fault host sum broken => exact .fault host (sums.2 sum) (same.trans broken)
  | endless host none endless broken => exact .endless host (mt sums.1 none) (plain.trans endless) (same.trans broken)
  | whole q none ended played => exact .whole q (mt sums.1 none) (plain.trans ended) (same.trans played)

/-- As long as the pictures shown can be counted, frames are played with sums of 64 bits as without, unless one of the
sums is no 64-bit number. -/
theorem UnderWay.checked {n frame : Nat} {p : Progress} (underWay : p.UnderWay)
    (room : p.console.screen.frames + n < UInt64.size) : Checked presses elapsed n frame p := by
  induction n generalizing frame p with
  | zero => exact .whole p (fun some => absurd some.1 (Nat.lt_irrefl 0)) rfl rfl
  | succ n ih =>
    have free : p.console.screen.isFull = false := decide_eq_false (by omega)
    have vacant : ¬ p.console.isFull = true := by
      rw [Console.isFull, free, Bool.and_false]
      exact Bool.false_ne_true
    by_cases overflows : Arguments.overflows presses = true
    · refine .fault p.console.rig.host ⟨Nat.succ_pos n, .inl overflows⟩ ?_
      rw [checkedPlay, if_pos overflows]
      rfl
    cases stepped : p.step presses elapsed frame with
    | none =>
      refine .endless p.console.rig.host
        (fun sum => sum.2.elim overflows (not_cyclesOverflow_of_endless stepped)) ?_ ?_
      · rw [Progress.play, stepped]
      · rw [checkedPlay, if_neg overflows, stepped]
        rfl
    | some after =>
      by_cases large : UInt64.size ≤ after.cycles
      · refine .fault p.console.rig.host
          ⟨Nat.succ_pos n, .inr ((cyclesOverflow_succ_iff stepped).2 (.inl large))⟩ ?_
        rw [checkedPlay, if_neg overflows, stepped]
        exact if_pos (.inr large)
      · obtain ⟨still, -, picture, drawn⟩ := underWay.step stepped
        refine .of_step overflows stepped large vacant (ih still ?_)
        rw [drawn, Screen.frames_draw free]
        omega

end Progress

namespace Arguments

variable {args : Arguments} {files : FileTree} {source : String} {store : AnyStore} {elapsed : Duration}

/-- The start of a run has shown nothing, and as many pictures as there are frames can be counted. -/
theorem checked_start (args : Arguments) (source : String) (store : AnyStore) (elapsed : Duration) :
    Progress.Checked args.presses elapsed args.frames.toNat 0 (args.start source store) :=
  (Progress.underWay_start args source store).checked ((Nat.zero_add _).trans_lt args.frames.toNat_lt)

/-- The frames of a run have ended, all of them, and have left it where it is. -/
def Played (args : Arguments) (files : FileTree) (played : Progress) : Prop :=
  ∃ source store elapsed, args.Ready files source store elapsed ∧
    Progress.checkedPlay args.presses elapsed args.frames.toNat 0 (args.start source store) = .ok played

/-- A run at the end of its frames is still under way, and has shown one picture for each of them. -/
theorem Played.underWay {played : Progress} (ended : args.Played files played) :
    played.UnderWay ∧ played.console.screen.frames = args.frames.toNat := by
  obtain ⟨source, store, elapsed, -, ended⟩ := ended
  have start := Progress.underWay_start args source store
  cases args.checked_start source store elapsed with
  | fault host sum broken => cases ended.symm.trans broken
  | endless host sums plain broken => cases ended.symm.trans broken
  | whole q sums plain whole =>
    cases ended.symm.trans whole
    have shown := start.frames_of_play plain ((Nat.zero_add _).trans_lt args.frames.toNat_lt)
    exact ⟨(start.play plain).1, shown.trans (Nat.zero_add _)⟩

/-- The last call of a run has an end, unless it is one that cannot be counted, and finds video memory as the frames
have left it. What remains to be done is to print the screen and to save the picture. -/
theorem Played.execute_eq {played : Progress} (ended : args.Played files played) :
    let noted := played.note (.ran args.frames.toNat played.cycles)
    ∃ out final, noted.console.update .zero {} = some (out, final) ∧
      noted.console.checkedUpdate .zero {} =
        (if args.frames.toNat + 1 = UInt64.size then .error .addOverflow else .ok (some (out, final))) ∧
      final.rig.machine.video = played.console.rig.machine.video ∧
      final.rig.host.store = played.console.rig.host.store ∧
      ∀ writer, execute files args writer =
        if args.frames.toNat + 1 = UInt64.size then (noted.breakOff .fault).conduct files
        else args.conclude writer files out final := by
  obtain ⟨underWay, shown⟩ := ended.underWay
  obtain ⟨source, store, elapsed, ready, ended⟩ := ended
  intro noted
  obtain ⟨out, final, run, checked, video, kept⟩ := underWay.last_update (.ran args.frames.toNat played.cycles)
  rw [shown] at checked
  refine ⟨out, final, run, checked, video, kept, fun writer => ?_⟩
  rw [ready.execute_eq, playOut]
  dsimp only
  rw [ended]
  dsimp only
  rw [checked]
  by_cases last : args.frames.toNat + 1 = UInt64.size
  · rw [if_pos last, if_pos last]
  · rw [if_neg last, if_neg last]

/-- No part of a run but its frames and the count of the last picture ends in a fault. -/
theorem Ready.ending_eq_fault_iff (ready : args.Ready files source store elapsed) (writer : ImageWriter) :
    (execute files args writer).ending = .broken .fault ↔
      Progress.SumOverflows args.presses elapsed args.frames.toNat 0 (args.start source store) ∨
        args.frames.toNat + 1 = UInt64.size ∧
          ∃ q, Progress.play args.presses elapsed args.frames.toNat 0 (args.start source store) = some q := by
  cases args.checked_start source store elapsed with
  | fault host sum broken =>
    rw [ready.execute_of_broken broken]
    exact iff_of_true rfl (.inl sum)
  | endless host sums plain broken =>
    rw [ready.execute_of_broken broken, plain]
    refine iff_of_false nofun ?_
    rintro (sum | ⟨-, q, ⟨⟩⟩)
    exact sums sum
  | whole q sums plain played =>
    obtain ⟨out, final, -, -, -, -, concluded⟩ := Played.execute_eq ⟨source, store, elapsed, ready, played⟩
    rw [concluded writer]
    by_cases last : args.frames.toNat + 1 = UInt64.size
    · rw [if_pos last]
      exact iff_of_true rfl (.inr ⟨last, q, plain⟩)
    · rw [if_neg last]
      refine iff_of_false nofun ?_
      rintro (sum | ⟨full, -⟩)
      · exact sums sum
      · exact last full

end Arguments

/-- A failure that is not that of a picture keeps a run from printing its screen. -/
theorem run_eq_failed_iff {files : FileTree} {texts : List String} {args : Arguments} {writer : ImageWriter}
    (accepted : Arguments.parse texts = .ok args) (f : Failure) (other : f ≠ .picture) :
    run files texts writer = .failed f ↔ (execute files args writer).ending = .broken f := by
  rw [run, accepted]
  dsimp only
  generalize execute files args writer = conduct
  obtain ⟨journal, files, g | ⟨pixels, _ | _⟩⟩ := conduct
  · constructor <;>
    · intro same
      cases same
      rfl
  · refine iff_of_false (fun same => ?_) nofun
    cases same
    exact other rfl
  · exact iff_of_false nofun nofun

/-- A run that comes to its first frame ends in a fault exactly if there are frames and a press is meant for the last
frame of 64 bits, which no run reaches, or the cycles so far are no 64-bit number after one of the frames, or the
picture after all frames is one too many to be counted. A frame runs 2880 cycles at most for each millisecond that
passes, and those of two seconds. -/
theorem fault_of_run_iff {files : FileTree} {texts : List String} {args : Arguments} {source : String}
    {store : AnyStore} {elapsed : Duration} (writer : ImageWriter) (accepted : Arguments.parse texts = .ok args)
    (ready : args.Ready files source store elapsed) :
    let played (n : Nat) := Progress.play args.presses elapsed n 0 (args.start source store)
    let frames := args.frames.toNat
    let most := 2880 * (1000 * (elapsed.seconds.toNat + 2))
    (run files texts writer = .failed .fault ↔
      0 < frames ∧ ((∃ p ∈ args.presses, p.frame.toNat + 1 = UInt64.size) ∨
        (∃ k < frames, ∃ q, played (k + 1) = some q ∧ UInt64.size ≤ q.cycles) ∨
        (frames + 1 = UInt64.size ∧ ∃ q, played frames = some q))) ∧
    (∀ n q, played n = some q → q.cycles ≤ n * most) ∧
    ((∀ p ∈ args.presses, p.frame.toNat + 1 < UInt64.size) → frames * most < UInt64.size →
      run files texts writer ≠ .failed .fault) := by
  intro played frames most
  have faults : run files texts writer = .failed .fault ↔
      0 < frames ∧ ((∃ p ∈ args.presses, p.frame.toNat + 1 = UInt64.size) ∨
        (∃ k < frames, ∃ q, played (k + 1) = some q ∧ UInt64.size ≤ q.cycles) ∨
        (frames + 1 = UInt64.size ∧ ∃ q, played frames = some q)) := by
    have positive : frames + 1 = UInt64.size → 0 < frames := by
      simp only [UInt64.size]
      omega
    rw [run_eq_failed_iff accepted .fault nofun, ready.ending_eq_fault_iff, Progress.SumOverflows,
      Arguments.overflows_iff, ← or_assoc, and_or_left (b := _ ∨ _)]
    exact or_congr Iff.rfl (iff_and_self.2 fun full => positive full.1)
  have counted : ∀ n q, played n = some q → q.cycles ≤ n * most := by
    intro n q reached
    have sum := ((Progress.underWay_start args source store).play reached).2
    exact sum.trans_eq (Nat.zero_add _)
  refine ⟨faults, counted, fun early few fault => ?_⟩
  obtain ⟨-, ⟨p, member, last⟩ | ⟨k, bound, q, reached, large⟩ | ⟨last, -⟩⟩ := faults.1 fault
  · exact absurd last (early p member).ne
  · have some := (counted (k + 1) q reached).trans (Nat.mul_le_mul_right most bound)
    exact absurd (large.trans some) (Nat.not_le_of_lt few)
  · have two : frames * 2 ≤ frames * most := Nat.mul_le_mul_left frames (by omega)
    simp only [UInt64.size] at last few
    omega

/-- A program that does nothing is run for three frames with presses of the last frames of 64 bits. -/
theorem fault_of_run_at_last_frame :
    let files : FileTree := ⟨[(["prog.tg"], .file "BTND 0".toUTF8)], []⟩
    run files ["prog.tg", "--frames", "3", "--press", "18446744073709551615:left"] = .failed .fault ∧
      run files ["prog.tg", "--frames", "3", "--press", "18446744073709551614:left", "--press", "+1:RIGHT"] ≠
        .failed .fault := by
  intro files
  let args (presses : List Press) : Arguments := ⟨"prog.tg", 3, Arguments.defaultRate, none, none, presses, none⟩
  have read : files.read "prog.tg" = .ok "BTND 0".toUTF8 := rfl
  have ready (presses : List Press) : (args presses).Ready files "BTND 0" (.shelf .empty) ⟨0, 33333333⟩ :=
    ⟨Arguments.isPositive_defaultRate, Arguments.readSource_of_read read, rfl, Arguments.period_defaultRate⟩
  have last : Arguments.parse ["prog.tg", "--frames", "3", "--press", "18446744073709551615:left"] =
      .ok (args [⟨18446744073709551615, .left⟩]) := rfl
  have early : Arguments.parse
      ["prog.tg", "--frames", "3", "--press", "18446744073709551614:left", "--press", "+1:RIGHT"] =
        .ok (args [⟨18446744073709551614, .left⟩, ⟨1, .right⟩]) := rfl
  obtain ⟨faults, -⟩ := fault_of_run_iff Png.writer last (ready _)
  obtain ⟨-, -, none⟩ := fault_of_run_iff Png.writer early (ready _)
  exact ⟨faults.2 ⟨by decide, .inl ⟨_, .head _, by decide⟩⟩, none (by decide) (by decide)⟩

/-- In a run with a press of the last frame of 64 bits the first frame has a sum that is no 64-bit number. -/
theorem fault_of_accepted_press : ¬ ∀ (texts : List String) (presses : List Press),
    texts.mapM (fun text => Press.parse text.toList) = .ok presses →
    ∀ (elapsed : Duration) (frames : Nat) (p : Progress) (host : Host AnyStore),
      Progress.checkedPlay presses elapsed frames 0 p ≠ .error ⟨.fault, host⟩ := by
  intro fits
  have parsed : ["18446744073709551615:left"].mapM (fun text => Press.parse text.toList) =
      .ok [⟨18446744073709551615, .left⟩] := rfl
  let c : Console AnyStore := { rig := ⟨.fresh, ⟨.shelf .empty, #[]⟩⟩ }
  have overflows : Arguments.overflows [⟨18446744073709551615, .left⟩] = true :=
    Arguments.overflows_iff.2 ⟨_, .head _, by decide⟩
  refine fits _ _ parsed .zero 1 { console := c } c.rig.host ?_
  rw [Progress.checkedPlay, if_pos overflows]
  rfl

end PocketConsole

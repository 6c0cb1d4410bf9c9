import FpgaTrivia.Hardware.Driver
import FpgaTrivia.Transition.Progress

/-!
# Runs of the driver

The processor makes the accesses of the calls in their order, each one in some
cycle; the stream takes pixels in others.  If both happen again and again, all
calls return, and the screen shows what they have drawn.
-/

namespace FpgaTrivia.Hardware

open CharBuffer
open FpgaTrivia.Transition

/-- What happens in a cycle: the processor makes its next access, and the stream
takes a pixel. -/
structure Beat where
  access : Bool
  streamReady : Bool
  collided : BitVec 8

/-- The device and the accesses to come. -/
structure DriverState where
  device : VideoBuffer
  pending : List Transfer

/-- The loop of `alt_up_char_buffer_clear` goes around again: the byte that has
been read has its lowest bit set. -/
def Transfer.repeats (device : VideoBuffer) : Transfer → Bool
  | .pollClear => (device.ctrlReaddata VideoBuffer.clearLane).getLsbD 0
  | _ => false

namespace DriverState

def step (state : DriverState) (beat : Beat) : DriverState :=
  match state.pending with
  | [] => ⟨state.device.cycle (Transfer.idle beat.streamReady beat.collided), []⟩
  | transfer :: rest =>
      if beat.access = true then
        let device := state.device.cycle (transfer.inputs beat.streamReady beat.collided)
        ⟨device, if transfer.repeats device = true then transfer :: rest else rest⟩
      else ⟨state.device.cycle (Transfer.idle beat.streamReady beat.collided), transfer :: rest⟩

/-- The driver before its first access; the device has been reset. -/
def start (memory : Nat → BitVec 8) (calls : List DriverCall) : DriverState :=
  ⟨.reset memory, calls.flatMap DriverCall.transfers⟩

/-- The state after `n` cycles. -/
def run (memory : Nat → BitVec 8) (calls : List DriverCall) (beats : Nat → Beat) (n : Nat) :
    DriverState :=
  Transition.run step (start memory calls) beats n

variable {state : DriverState} {beat : Beat} {transfer : Transfer} {rest : List Transfer}

theorem step_nil (none : state.pending = []) :
    state.step beat =
      ⟨state.device.cycle (Transfer.idle beat.streamReady beat.collided), []⟩ := by
  rw [step, none]

theorem step_of_waiting (next : state.pending = transfer :: rest) (waiting : ¬ beat.access = true) :
    state.step beat =
      ⟨state.device.cycle (Transfer.idle beat.streamReady beat.collided), transfer :: rest⟩ := by
  simp only [step, next, if_neg waiting]

theorem step_of_access (next : state.pending = transfer :: rest) (access : beat.access = true) :
    state.step beat =
      ⟨state.device.cycle (transfer.inputs beat.streamReady beat.collided),
        if transfer.repeats
          (state.device.cycle (transfer.inputs beat.streamReady beat.collided)) = true
        then transfer :: rest else rest⟩ := by
  simp only [step, next, if_pos access]

/-! ## The picture so far -/

/-- The accesses that have been made account for what the device holds. -/
def Accounts (all : List Transfer) (state : DriverState) : Prop :=
  ∃ made picture, all = made ++ state.pending ∧
    made.foldlM Picture.after .unknown = some picture ∧ state.device.Serves picture

/-- The accesses come in an order that makes sense to the device. -/
def Orderly (all : List Transfer) : Prop :=
  ∃ picture, all.foldlM Picture.after .unknown = some picture

/-- The next access makes sense. -/
theorem exists_after {all made : List Transfer} {picture : Picture} (orderly : Orderly all)
    (split : all = made ++ transfer :: rest)
    (drawn : made.foldlM Picture.after .unknown = some picture) :
    ∃ picture', picture.after transfer = some picture' ∧
      (made ++ [transfer]).foldlM Picture.after .unknown = some picture' := by
  obtain ⟨final, whole⟩ := orderly
  rw [split, List.foldlM_append, drawn] at whole
  change (picture.after transfer).bind (fun next => rest.foldlM Picture.after next) = _ at whole
  obtain ⟨picture', next, -⟩ := Option.bind_eq_some_iff.mp whole
  refine ⟨picture', next, ?_⟩
  rw [List.foldlM_append, drawn]
  change (picture.after transfer).bind (fun next => some next) = _
  rw [next]
  rfl

/-- An access brings the device where its picture goes, unless it is repeated. -/
theorem serves_access {device : VideoBuffer} {picture picture' : Picture} (streamReady : Bool)
    (collided : BitVec 8) (serves : device.Serves picture)
    (next : picture.after transfer = some picture') :
    (device.cycle (transfer.inputs streamReady collided)).Serves
      (if transfer.repeats (device.cycle (transfer.inputs streamReady collided)) = true
        then picture else picture') := by
  cases transfer with
  | requestClear =>
      obtain rfl : Picture.clearing = picture' := Option.some.inj (by cases picture <;> exact next)
      exact serves.requestClear
  | pollClear =>
      cases picture with
      | unknown => cases next
      | drawn buf => cases next
      | clearing =>
          obtain rfl := Option.some.inj next
          change VideoBuffer.Serves _ (if device.clearBit = true then _ else _)
          by_cases requested : device.clearBit = true
          · rw [if_pos requested]
            exact serves.cycle rfl rfl
          · rw [if_neg requested]
            exact serves.pollClear (by simpa using requested)
  | store addr ch =>
      cases picture with
      | unknown => cases next
      | clearing => cases next
      | drawn buf =>
          change (if addr < 8192 then _ else _) = _ at next
          by_cases inside : addr < 8192
          · rw [if_pos inside] at next
            obtain rfl := Option.some.inj next
            exact serves.store inside ch
          · rw [if_neg inside] at next
            cases next

theorem Accounts.step {all : List Transfer} (accounts : Accounts all state)
    (orderly : Orderly all) : Accounts all (state.step beat) := by
  obtain ⟨made, picture, split, drawn, serves⟩ := accounts
  cases next : state.pending with
  | nil =>
      rw [step_nil next]
      exact ⟨made, picture, next ▸ split, drawn, serves.cycle rfl rfl⟩
  | cons transfer rest =>
      rw [next] at split
      by_cases access : beat.access = true
      · rw [step_of_access next access]
        obtain ⟨picture', after, more⟩ := exists_after orderly split drawn
        have kept := serves_access beat.streamReady beat.collided serves after
        by_cases again : transfer.repeats
            (state.device.cycle (transfer.inputs beat.streamReady beat.collided)) = true
        · rw [if_pos again] at kept ⊢
          exact ⟨made, picture, split, drawn, kept⟩
        · rw [if_neg again] at kept ⊢
          exact ⟨made ++ [transfer], picture', by simpa using split, more, kept⟩
      · rw [step_of_waiting next access]
        exact ⟨made, picture, split, drawn, serves.cycle rfl rfl⟩

end DriverState

/-! ## What the calls draw -/

namespace DriverCall

variable {buf : CharBuffer}

/-- The stores of a string draw it. -/
theorem foldlM_stringTransfers (chars : List Char) {x offset : Nat} (column : x < xResolution)
    (inside : offset + xResolution ≤ 8192 + x) :
    (stringTransfers chars x offset).foldlM Picture.after (.drawn buf) =
      some (.drawn (writeString buf chars x offset).2) := by
  induction chars generalizing buf x offset with
  | nil => rfl
  | cons c rest ih =>
      rw [stringTransfers, writeString]
      by_cases nul : c = '\x00'
      · rw [if_pos nul, if_pos nul]
        rfl
      · have first : Picture.after (.drawn buf) (.store offset c) =
            some (.drawn (Function.update buf offset c)) := if_pos (by omega)
        rw [if_neg nul, if_neg nul, List.foldlM_cons, first]
        change (if _ then _ else _ : List Transfer).foldlM Picture.after _ = _
        by_cases edge : xResolution ≤ x + 1
        · rw [if_pos edge, if_pos edge]
          rfl
        · rw [if_neg edge, if_neg edge]
          exact ih (Nat.lt_of_not_le edge) (by omega)

/-- The masks of `alt_up_char_buffer_draw` leave the coordinates on the screen
alone. -/
theorem masked_address {x y : Nat} (column : x < xResolution) (row : y < yResolution) :
    ((x &&& 0x7f) ||| ((y &&& 0x3f) <<< yCoordOffset)) = address x y := by
  rw [xResolution] at column
  rw [yResolution] at row
  rw [Nat.and_two_pow_sub_one_of_lt_two_pow (n := 7) (by omega),
    Nat.and_two_pow_sub_one_of_lt_two_pow (n := 6) (by omega), Nat.or_comm, yCoordOffset,
    ← Nat.shiftLeft_add_eq_or_of_lt (by omega)]
  rfl

/-- On a cleared screen a call draws what it is for. -/
theorem foldlM_transfers (call : DriverCall) :
    call.transfers.foldlM Picture.after (.drawn buf) = some (.drawn (call.perform buf)) := by
  cases call with
  | clear => rfl
  | string ptr x y =>
      rw [transfers, perform, CharBuffer.draw, altUpCharBufferString]
      by_cases off : xResolution ≤ x ∨ yResolution ≤ y
      · rw [if_pos off, if_pos off]
        rfl
      · rw [if_neg off, if_neg off]
        have row := address_eq x y
        apply foldlM_stringTransfers
        · omega
        · rw [xResolution, yResolution] at *
          omega
  | draw ch x y =>
      rw [transfers, perform]
      by_cases off : xResolution ≤ x ∨ yResolution ≤ y
      · rw [if_pos off, if_pos off]
        rfl
      · have row := address_eq x y
        rw [if_neg off, if_neg off, masked_address (by omega) (by omega)]
        rw [xResolution, yResolution] at off
        have stored : Picture.after (.drawn buf) (.store (address x y) ch) =
            some (.drawn (Function.update buf (address x y) ch)) := if_pos (by omega)
        rw [List.foldlM_cons, stored]
        rfl

theorem foldlM_calls (calls : List DriverCall) :
    (calls.flatMap transfers).foldlM Picture.after (.drawn buf) =
      some (.drawn (calls.foldl perform buf)) := by
  induction calls generalizing buf with
  | nil => rfl
  | cons call rest ih =>
      rw [List.flatMap_cons, List.foldlM_append, foldlM_transfers]
      exact ih

/-- The first clear makes the memory known. -/
theorem foldlM_clear_calls (calls : List DriverCall) (junk : CharBuffer) :
    ((DriverCall.clear :: calls).flatMap transfers).foldlM Picture.after .unknown =
      some (.drawn ((DriverCall.clear :: calls).foldl perform junk)) := by
  rw [List.flatMap_cons, List.foldlM_append]
  exact foldlM_calls calls

end DriverCall

namespace DriverState

variable {memory : Nat → BitVec 8} {calls : List DriverCall} {beats : Nat → Beat} {n : Nat}

theorem run_succ (memory : Nat → BitVec 8) (calls : List DriverCall) (beats : Nat → Beat) (n : Nat) :
    run memory calls beats (n + 1) = (run memory calls beats n).step (beats n) :=
  rfl

theorem sweeping_reset (memory : Nat → BitVec 8) : (VideoBuffer.reset memory).Sweeping where
  inRaster := ⟨Nat.zero_lt_succ 639, Nat.zero_lt_succ 479⟩
  high := by
    change (0#8).getLsbD 0 = false
    decide
  swept := fun _ _ _ _ _ _ left => absurd left (Nat.not_lt_zero _)

theorem accounts_run (n : Nat) :
    Accounts ((DriverCall.clear :: calls).flatMap DriverCall.transfers)
      (run memory (.clear :: calls) beats n) := by
  induction n with
  | zero => exact ⟨[], .unknown, rfl, rfl, sweeping_reset memory⟩
  | succ n ih => exact ih.step ⟨_, DriverCall.foldlM_clear_calls calls fun _ => ' '⟩

/-- Once the calls up to some point have returned, and the first one has been a
clear, the screen shows what they have drawn one after the other, whatever the
memory held at reset and however the cycles of the processor and of the raster
have been interleaved. -/
theorem serves_returned {returned todo : List DriverCall} (junk : CharBuffer)
    (pending : (run memory (.clear :: (returned ++ todo)) beats n).pending =
      todo.flatMap DriverCall.transfers) :
    (run memory (.clear :: (returned ++ todo)) beats n).device.Serves
      (.drawn ((DriverCall.clear :: returned).foldl DriverCall.perform junk)) := by
  obtain ⟨made, picture, split, drawn, serves⟩ :=
    @accounts_run memory (returned ++ todo) beats n
  rw [pending, ← List.cons_append, List.flatMap_append] at split
  rw [← List.append_cancel_right split, DriverCall.foldlM_clear_calls returned junk] at drawn
  obtain rfl := Option.some.inj drawn
  exact serves

/-! ## All calls return -/

/-- The pixels that a pending poll has to wait for. -/
def waiting (state : DriverState) : Nat :=
  match state.pending with
  | .pollClear :: _ => state.device.sweepLeft
  | _ => 0

/-- An access counts for more than the pixels that any poll has to wait for. -/
def toGo (state : DriverState) : Nat :=
  614401 * state.pending.length + state.waiting

variable {state : DriverState} {beat : Beat} {transfer : Transfer} {rest : List Transfer}

theorem waiting_le (state : DriverState) : state.waiting ≤ 614400 := by
  unfold waiting
  split
  · exact state.device.sweepLeft_le
  · exact Nat.zero_le _

theorem toGo_mod (state : DriverState) : state.toGo % 614401 = state.waiting := by
  have upper := state.waiting_le
  rw [toGo]
  omega

theorem waiting_of_pollClear (next : state.pending = .pollClear :: rest) :
    state.waiting = state.device.sweepLeft := by
  rw [waiting, next]

theorem waiting_of_ne_pollClear (next : state.pending = transfer :: rest)
    (other : transfer ≠ .pollClear) : state.waiting = 0 := by
  rw [waiting, next]
  cases transfer with
  | pollClear => exact absurd rfl other
  | requestClear => rfl
  | store addr ch => rfl

theorem toGo_of_nil (none : state.pending = []) : state.toGo = 0 := by
  rw [toGo, waiting, none]
  rfl

/-- What a cycle that leaves the accesses alone does to the time to go. -/
theorem toGo_of_kept {device : VideoBuffer} {inputs : VideoInputs}
    (next : state.pending = transfer :: rest) (inRaster : state.device.InRaster)
    (uncontrolled : VideoBuffer.Uncontrolled inputs) (moved : device = state.device.cycle inputs) :
    toGo ⟨device, transfer :: rest⟩ ≤ state.toGo ∧
      (inputs.streamReady = true → 0 < state.waiting →
        toGo ⟨device, transfer :: rest⟩ < state.toGo) := by
  obtain ⟨le, less⟩ := VideoBuffer.sweepLeft_cycle inRaster uncontrolled
  rw [← moved] at le less
  have same : state.pending.length = (transfer :: rest).length := congrArg List.length next
  rw [toGo, toGo, same]
  by_cases poll : transfer = .pollClear
  · subst poll
    rw [waiting_of_pollClear next, @waiting_of_pollClear ⟨device, .pollClear :: rest⟩ rest rfl]
    exact ⟨Nat.add_le_add_left le _, fun taken positive =>
      Nat.add_lt_add_left (less taken positive) _⟩
  · rw [waiting_of_ne_pollClear next poll,
      @waiting_of_ne_pollClear ⟨device, transfer :: rest⟩ transfer rest rfl poll]
    exact ⟨Nat.le_refl _, fun _ positive => absurd positive (Nat.lt_irrefl 0)⟩

/-- An access that is not repeated. -/
theorem toGo_of_made {device : VideoBuffer} (next : state.pending = transfer :: rest) :
    toGo ⟨device, rest⟩ < state.toGo := by
  have upper := waiting_le ⟨device, rest⟩
  have same : state.pending.length = rest.length + 1 := congrArg List.length next
  change 614401 * rest.length + waiting ⟨device, rest⟩ < _
  rw [toGo, same]
  omega

/-- A poll is repeated only as long as it has something to wait for. -/
theorem waiting_of_repeats (next : state.pending = transfer :: rest)
    (inRaster : state.device.InRaster)
    (again : transfer.repeats
      (state.device.cycle (transfer.inputs beat.streamReady beat.collided)) = true) :
    VideoBuffer.Uncontrolled (transfer.inputs beat.streamReady beat.collided) ∧
      0 < state.waiting := by
  cases transfer with
  | requestClear => cases again
  | store addr ch => cases again
  | pollClear =>
      refine ⟨rfl, Nat.pos_of_ne_zero fun none => ?_⟩
      rw [waiting_of_pollClear next, VideoBuffer.sweepLeft_eq_zero_iff inRaster] at none
      have requested : state.device.clearBit = true := again
      rw [none] at requested
      cases requested

theorem streamReady_inputs (transfer : Transfer) (streamReady : Bool) (collided : BitVec 8) :
    (transfer.inputs streamReady collided).streamReady = streamReady := by
  cases transfer <;> rfl

/-- The time to go never grows; it shrinks with an access that has nothing to
wait for, and with a pixel that a poll is waiting for. -/
theorem toGo_step (inRaster : state.device.InRaster) :
    (state.step beat).toGo ≤ state.toGo ∧
      (beat.access = true → state.pending ≠ [] → state.waiting = 0 →
        (state.step beat).toGo < state.toGo) ∧
      (beat.streamReady = true → 0 < state.waiting → (state.step beat).toGo < state.toGo) := by
  cases next : state.pending with
  | nil =>
      rw [step_nil next]
      refine ⟨Nat.zero_le _, fun _ some => absurd rfl some, fun _ positive => ?_⟩
      rw [waiting, next] at positive
      exact absurd positive (Nat.lt_irrefl 0)
  | cons transfer rest =>
      by_cases access : beat.access = true
      · rw [step_of_access next access]
        by_cases again : transfer.repeats
            (state.device.cycle (transfer.inputs beat.streamReady beat.collided)) = true
        · obtain ⟨uncontrolled, positive⟩ := waiting_of_repeats next inRaster again
          obtain ⟨le, less⟩ := toGo_of_kept next inRaster uncontrolled rfl
          rw [streamReady_inputs] at less
          rw [if_pos again]
          exact ⟨le, fun _ _ none => absurd none (Nat.ne_of_gt positive), less⟩
        · rw [if_neg again]
          have less := @toGo_of_made state transfer rest
            (state.device.cycle (transfer.inputs beat.streamReady beat.collided)) next
          exact ⟨Nat.le_of_lt less, fun _ _ _ => less, fun _ _ => less⟩
      · rw [step_of_waiting next access]
        obtain ⟨le, less⟩ := toGo_of_kept next inRaster
          (@VideoBuffer.uncontrolled_idle beat.streamReady beat.collided) rfl
        exact ⟨le, fun taken => absurd taken access, less⟩

theorem inRaster_step (inRaster : state.device.InRaster) : (state.step beat).device.InRaster := by
  cases next : state.pending with
  | nil =>
      rw [step_nil next]
      exact inRaster.cycle
  | cons transfer rest =>
      by_cases access : beat.access = true
      · rw [step_of_access next access]
        exact inRaster.cycle
      · rw [step_of_waiting next access]
        exact inRaster.cycle

theorem inRaster_run (n : Nat) : (run memory calls beats n).device.InRaster := by
  induction n with
  | zero => exact (sweeping_reset memory).inRaster
  | succ n ih => exact inRaster_step ih

/-- The processor makes accesses and the stream takes pixels, again and again. -/
structure Lively (beats : Nat → Beat) : Prop where
  access : ∀ n, ∃ m, n ≤ m ∧ (beats m).access = true
  streamReady : ∀ n, ∃ m, n ≤ m ∧ (beats m).streamReady = true

theorem antitone_toGo : Antitone fun n => (run memory calls beats n).toGo :=
  antitone_nat_of_succ_le fun n => (toGo_step (inRaster_run n)).1

theorem Lively.progresses (lively : Lively beats) :
    Progresses fun n => (run memory calls beats n).toGo := by
  intro n positive
  by_contra stuck
  push Not at stuck
  have still : ∀ m, n ≤ m → (run memory calls beats m).toGo = (run memory calls beats n).toGo := by
    intro m later
    induction m, later using Nat.le_induction with
    | base => rfl
    | succ m later ih =>
        exact (Nat.le_antisymm (antitone_toGo (Nat.le_succ m)) (stuck m later)).trans ih
  have held : ∀ m, n ≤ m → (run memory calls beats m).waiting =
      (run memory calls beats n).waiting := by
    intro m later
    rw [← toGo_mod, still m later, toGo_mod]
  rcases Nat.eq_zero_or_pos (run memory calls beats n).waiting with none | some
  · obtain ⟨m, later, access⟩ := lively.access n
    apply Nat.not_lt.mpr (stuck m later)
    apply (toGo_step (inRaster_run m)).2.1 access _ ((held m later).trans none)
    intro empty
    have spent := (still m later).symm.trans (toGo_of_nil empty)
    exact absurd spent (Nat.ne_of_gt positive)
  · obtain ⟨m, later, ready⟩ := lively.streamReady n
    apply Nat.not_lt.mpr (stuck m later)
    exact (toGo_step (inRaster_run m)).2.2 ready ((held m later).symm ▸ some)

/-- The polls come to an end, and so do all calls. -/
theorem Lively.exists_returned (lively : Lively beats) :
    ∃ n, ∀ m, n ≤ m → (run memory calls beats m).pending = [] := by
  obtain ⟨n, -, zero⟩ := (@Lively.progresses memory calls beats lively).exists_zero antitone_toGo 0
  refine ⟨n, fun m later => ?_⟩
  have upto : (run memory calls beats m).toGo ≤ (run memory calls beats n).toGo :=
    antitone_toGo later
  rw [zero, toGo] at upto
  apply List.eq_nil_of_length_eq_zero
  omega

theorem step_pending (state : DriverState) (beat : Beat) :
    (state.step beat).pending = state.pending ∨
      ∃ transfer, state.pending = transfer :: (state.step beat).pending := by
  cases next : state.pending with
  | nil =>
      rw [step_nil next]
      exact Or.inl rfl
  | cons transfer rest =>
      by_cases access : beat.access = true
      · rw [step_of_access next access]
        split
        · exact Or.inl rfl
        · exact Or.inr ⟨transfer, rfl⟩
      · rw [step_of_waiting next access]
        exact Or.inl rfl

/-- Every call comes to its turn. -/
theorem Lively.exists_pending (lively : Lively beats) (returned todo : List DriverCall) :
    ∃ n, (run memory (returned ++ todo) beats n).pending = todo.flatMap DriverCall.transfers := by
  obtain ⟨n, empty⟩ := @Lively.exists_returned memory (returned ++ todo) beats lively
  have worked : WorkedOff fun n => (run memory (returned ++ todo) beats n).pending :=
    fun n => step_pending _ (beats n)
  exact worked.exists_eq (empty n (Nat.le_refl n)) (returned.flatMap DriverCall.transfers) _
    List.flatMap_append

/-- The driver works.  After a first clear every program of calls returns, and
whenever the calls up to some point have returned, the screen shows what they
have drawn one after the other, whatever the memory held at reset and however
the cycles of the processor and of the raster have been interleaved. -/
theorem calls_return_and_show (lively : Lively beats) (memory : Nat → BitVec 8)
    (calls : List DriverCall) (junk : CharBuffer) :
    (∃ n, ∀ m, n ≤ m → (run memory (.clear :: calls) beats m).pending = []) ∧
      ∀ n returned todo, calls = returned ++ todo →
        (run memory (.clear :: calls) beats n).pending = todo.flatMap DriverCall.transfers →
          (run memory (.clear :: calls) beats n).device.Shows
            ((DriverCall.clear :: returned).foldl DriverCall.perform junk) := by
  refine ⟨lively.exists_returned, ?_⟩
  rintro n returned todo rfl pending
  exact (serves_returned junk pending).2

theorem lively_const : Lively fun _ => ⟨true, true, 0#8⟩ where
  access n := ⟨n, Nat.le_refl n, rfl⟩
  streamReady n := ⟨n, Nat.le_refl n, rfl⟩

/-- For instance with an access and a pixel in every cycle. -/
theorem title_returns_and_shows :
    (∃ n, ∀ m, n ≤ m →
        (run (fun _ => 0#8) [.clear, .string "You win!!!" 27 25]
          (fun _ => ⟨true, true, 0#8⟩) m).pending = []) ∧
      ∀ n returned todo, [DriverCall.string "You win!!!" 27 25] = returned ++ todo →
        (run (fun _ => 0#8) [.clear, .string "You win!!!" 27 25]
          (fun _ => ⟨true, true, 0#8⟩) n).pending = todo.flatMap DriverCall.transfers →
          (run (fun _ => 0#8) [.clear, .string "You win!!!" 27 25]
            (fun _ => ⟨true, true, 0#8⟩) n).device.Shows
            ((DriverCall.clear :: returned).foldl DriverCall.perform fun _ => ' ') :=
  calls_return_and_show lively_const _ _ _

end DriverState

end FpgaTrivia.Hardware

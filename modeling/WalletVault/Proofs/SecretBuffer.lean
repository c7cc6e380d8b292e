import Mathlib.Data.List.Induction
import WalletVault.Attempts
import WalletVault.Proofs.Computation
import WalletVault.SecretBuffer

/-!
# The life of a secret buffer

Whatever a program does with a buffer, each of its calls leaves the array where it
is and puts a value of the same size, zeros or nothing into it. So what the buffer
shows at any moment is told by the last call that has changed it, and who has lent
the array sees the same bytes.
-/

namespace WalletVault
namespace SecretBuffer

open WalletVault.Computation

/-!
# Single calls
-/

/-- After so many steps so many bytes are zero, and the others are as they were. -/
theorem foldl_overwrite_zero (buffer : SecretBuffer) {k : Nat} (hk : k <= buffer.content.length) :
    (List.range k).foldl (fun buffer i => buffer.overwrite (buffer.content.set i 0)) buffer =
      buffer.overwrite (Bytes.zeros k ++ buffer.content.drop k) := by
  induction k with
  | zero =>
      exact (overwrite_content buffer).symm
  | succ k ih =>
      have hzeros : Bytes.zeros (k + 1) = Bytes.zeros k ++ [0] := List.replicate_succ'
      rw [List.range_succ, List.foldl_append, ih (by omega), List.foldl_cons, List.foldl_nil,
        overwrite_overwrite, content_overwrite, List.set_append_right (h := by simp),
        Bytes.length_zeros, Nat.sub_self, List.drop_eq_getElem_cons hk, List.set_cons_zero, hzeros,
        List.append_assoc]
      rfl

theorem zeroed_eq (buffer : SecretBuffer) :
    buffer.zeroed = buffer.overwrite (Bytes.zeros buffer.content.length) := by
  rw [zeroed, foldl_overwrite_zero buffer (Nat.le_refl _), List.drop_length, List.append_nil]

theorem wipe_apply (buffer : SecretBuffer) :
    wipe buffer = (.ok ⟨⟩, buffer.overwrite (Bytes.zeros buffer.content.length)) := by
  rw [wipe, modify_apply, zeroed_eq]

theorem set_of_length_eq {buffer : SecretBuffer} {value : Bytes}
    (h : value.length = buffer.content.length) :
    set value buffer = (.ok ⟨⟩, buffer.overwrite value) := by
  rw [set, bind_of_ok (get_apply buffer), if_neg (not_not.mpr h)]
  rfl

theorem set_of_length_ne {buffer : SecretBuffer} {value : Bytes}
    (h : value.length ≠ buffer.content.length) :
    set value buffer =
      (.error (.misuse (.bufferSize buffer.content.length value.length)), buffer) := by
  rw [set, bind_of_ok (get_apply buffer), if_pos h]
  rfl

theorem block_apply {α : Type} (body : Using α) (buffer : SecretBuffer) :
    block body buffer =
      ((body buffer).1,
        (body buffer).2.overwrite (Bytes.zeros (body buffer).2.content.length)) := by
  rw [block, enter, bind_of_ok (pure_apply _ _), finally_apply, leave, wipe_apply]

/-!
# Calls and programs
-/

inductive Call where
  | set (value : Bytes)
  | wipe
  | enter
  | leave
  deriving DecidableEq, Repr

def Call.run : Call -> Using PUnit
  | .set value => SecretBuffer.set value
  | .wipe => SecretBuffer.wipe
  | .enter => SecretBuffer.enter
  | .leave => SecretBuffer.leave

def after (buffer : SecretBuffer) (calls : List Call) : SecretBuffer :=
  (attempts Call.run calls buffer).2

theorem after_append (buffer : SecretBuffer) (calls later : List Call) :
    buffer.after (calls ++ later) = (buffer.after calls).after later := by
  rw [after, attempts_append]
  rfl

/-- A program that uses a buffer. A fault ends the program up to the place where it is caught, but
not without leaving the blocks on the way. -/
inductive Program where
  | done
  | set (value : Bytes) (rest : Program)
  | wipe (rest : Program)
  | block (body rest : Program)
  | catching (body rest : Program)

namespace Program

variable {σ : Type}

def runWith (call : Call -> ExceptT Fault (StateM σ) PUnit) :
    Program -> ExceptT Fault (StateM σ) PUnit
  | .done => pure ⟨⟩
  | .set value rest => do
    call (.set value)
    runWith call rest
  | .wipe rest => do
    call .wipe
    runWith call rest
  | .block body rest => do
    call .enter
    try runWith call body finally call .leave
    runWith call rest
  | .catching body rest => do
    try runWith call body catch _ => pure ⟨⟩
    runWith call rest

def run (program : Program) : Using PUnit :=
  program.runWith Call.run

end Program

/-!
# Recorded calls
-/

/-- A call that is also noted behind those that were made before. -/
def recorded (call : Call) : ExceptT Fault (StateM (SecretBuffer × List Call)) PUnit :=
  fun (buffer, made) => ((call.run buffer).1, (call.run buffer).2, made ++ [call])

/-- The second computation does what the first one does and notes the calls. -/
def Records (real : Using PUnit)
    (noting : ExceptT Fault (StateM (SecretBuffer × List Call)) PUnit) : Prop :=
  forall buffer made, exists calls,
    noting (buffer, made) = ((real buffer).1, (real buffer).2, made ++ calls) ∧
      (real buffer).2 = buffer.after calls

section Records

variable {real later : Using PUnit}
  {noting notingLater : ExceptT Fault (StateM (SecretBuffer × List Call)) PUnit}

theorem records_pure : Records (pure ⟨⟩) (pure ⟨⟩) := by
  intro buffer made
  exact ⟨[], by rw [List.append_nil]; rfl, rfl⟩

theorem records_call (call : Call) : Records call.run (recorded call) := by
  intro buffer made
  exact ⟨[call], rfl, rfl⟩

theorem Records.bind (h : Records real noting) (hlater : Records later notingLater) :
    Records (do real; later) (do noting; notingLater) := by
  intro buffer made
  rcases h buffer made with ⟨calls, hnoting, hcalls⟩
  rcases hreal : real buffer with ⟨result, middle⟩
  rw [hreal] at hnoting hcalls
  rw [bind_apply, bind_apply, hreal, hnoting]
  cases result with
  | ok _ =>
      rcases hlater middle (made ++ calls) with ⟨more, hnotingLater, hmore⟩
      refine ⟨calls ++ more, ?_, ?_⟩
      · rw [← List.append_assoc]
        exact hnotingLater
      · rw [after_append, ← hcalls]
        exact hmore
  | error fault =>
      exact ⟨calls, rfl, hcalls⟩

theorem Records.tryCatch (h : Records real noting) :
    Records (tryCatch real (fun _ => pure ⟨⟩)) (tryCatch noting (fun _ => pure ⟨⟩)) := by
  intro buffer made
  rcases h buffer made with ⟨calls, hnoting, hcalls⟩
  rcases hreal : real buffer with ⟨result, middle⟩
  rw [hreal] at hnoting hcalls
  rw [catch_apply, catch_apply, hreal, hnoting]
  cases result with
  | ok _ =>
      exact ⟨calls, rfl, hcalls⟩
  | error fault =>
      exact ⟨calls, rfl, hcalls⟩

theorem Records.tryFinally (h : Records real noting) (hlater : Records later notingLater) :
    Records (tryFinally real later) (tryFinally noting notingLater) := by
  intro buffer made
  rcases h buffer made with ⟨calls, hnoting, hcalls⟩
  rcases hlater (real buffer).2 (made ++ calls) with ⟨more, hnotingLater, hmore⟩
  refine ⟨calls ++ more, ?_, ?_⟩
  · rw [finally_apply, finally_apply, hnoting, hnotingLater, ← List.append_assoc]
    rcases later (real buffer).2 with ⟨result, last⟩
    cases result <;> rfl
  · rw [after_append, ← hcalls, ← hmore, finally_apply]
    rcases later (real buffer).2 with ⟨result, last⟩
    cases result <;> rfl

end Records

theorem Program.records (program : Program) :
    Records program.run (program.runWith recorded) := by
  induction program with
  | done =>
      exact records_pure
  | set value rest ih =>
      exact (records_call (.set value)).bind ih
  | wipe rest ih =>
      exact (records_call .wipe).bind ih
  | block body rest ihbody ihrest =>
      have hblock := ihbody.tryFinally (records_call .leave)
      exact (records_call .enter).bind (hblock.bind ihrest)
  | catching body rest ihbody ihrest =>
      exact ihbody.tryCatch.bind ihrest

/-!
# What a buffer shows
-/

/-- A call that leaves the content of a buffer of some size alone. -/
def Call.Idle (size : Nat) : Call -> Prop
  | .set value => value.length ≠ size
  | .enter => True
  | .wipe => False
  | .leave => False

/-- The content of a buffer after some calls: the value of a successful set that no successful set,
wipe or end of a block came after, or zeros from a wipe or an end of a block that no successful set
came after, or what was there at first. -/
inductive Shows (first : Bytes) : List Call -> Bytes -> Prop where
  | first {calls : List Call} (h : forall call, call ∈ calls -> call.Idle first.length) :
      Shows first calls first
  | value (before : List Call) {value : Bytes} {after : List Call}
      (hvalue : value.length = first.length)
      (hafter : forall call, call ∈ after -> call.Idle first.length) :
      Shows first (before ++ .set value :: after) value
  | zeros (before : List Call) {call : Call} {after : List Call}
      (hcall : call = .wipe ∨ call = .leave)
      (hafter : forall call, call ∈ after -> call.Idle first.length) :
      Shows first (before ++ call :: after) (Bytes.zeros first.length)

theorem Shows.length_eq {first shown : Bytes} {calls : List Call} (h : Shows first calls shown) :
    shown.length = first.length := by
  cases h with
  | first _ =>
      rfl
  | value _ hvalue _ =>
      exact hvalue
  | zeros _ _ _ =>
      exact Bytes.length_zeros _

theorem forall_idle_concat {size : Nat} {calls : List Call} {last : Call}
    (h : forall call, call ∈ calls -> call.Idle size) (hlast : last.Idle size) :
    forall call, call ∈ calls ++ [last] -> call.Idle size :=
  List.forall_mem_append.mpr ⟨h, List.forall_mem_singleton.mpr hlast⟩

theorem Shows.concat {first shown : Bytes} {calls : List Call} (h : Shows first calls shown)
    {last : Call} (hlast : last.Idle first.length) : Shows first (calls ++ [last]) shown := by
  cases h with
  | first h =>
      exact .first (forall_idle_concat h hlast)
  | value before hvalue hafter =>
      rw [List.append_assoc, List.cons_append]
      exact .value before hvalue (forall_idle_concat hafter hlast)
  | zeros before hcall hafter =>
      rw [List.append_assoc, List.cons_append]
      exact .zeros before hcall (forall_idle_concat hafter hlast)

section States

variable {buffer : SecretBuffer} {call : Call}

theorem state_of_idle (h : call.Idle buffer.content.length) : (call.run buffer).2 = buffer := by
  cases call with
  | set value =>
      rw [Call.run, set_of_length_ne h]
  | wipe =>
      exact absurd h not_false
  | enter =>
      rfl
  | leave =>
      exact absurd h not_false

theorem state_of_set {value : Bytes} (h : value.length = buffer.content.length) :
    ((Call.set value).run buffer).2 = buffer.overwrite value := by
  rw [Call.run, set_of_length_eq h]

theorem state_of_wiping (h : call = .wipe ∨ call = .leave) :
    (call.run buffer).2 = buffer.overwrite (Bytes.zeros buffer.content.length) := by
  rcases h with h | h
  · rw [h, Call.run, wipe_apply]
  · rw [h, Call.run, leave, wipe_apply]

theorem after_of_idle {calls : List Call}
    (h : forall call, call ∈ calls -> call.Idle buffer.content.length) :
    buffer.after calls = buffer := by
  induction calls with
  | nil =>
      rfl
  | cons call rest ih =>
      rw [after, attempts_cons, state_of_idle (h call List.mem_cons_self)]
      exact ih (fun other hother => h other (List.mem_cons_of_mem call hother))

end States

/-- One more call either leaves the content alone, or decides what is shown from then on. -/
theorem exists_shows_concat {first shown : Bytes} {calls : List Call} (buffer : SecretBuffer)
    (h : Shows first calls shown) (call : Call) :
    exists next, (call.run (buffer.overwrite shown)).2 = buffer.overwrite next ∧
      Shows first (calls ++ [call]) next := by
  have hlength : (buffer.overwrite shown).content.length = first.length := by
    rw [content_overwrite, h.length_eq]
  have hwiping (hcall : call = .wipe ∨ call = .leave) :
      exists next, (call.run (buffer.overwrite shown)).2 = buffer.overwrite next ∧
        Shows first (calls ++ [call]) next := by
    refine ⟨_, ?_, .zeros calls hcall (List.forall_mem_nil _)⟩
    rw [state_of_wiping hcall, hlength, overwrite_overwrite]
  cases call with
  | set value =>
      by_cases hvalue : value.length = first.length
      · refine ⟨value, ?_, .value calls hvalue (List.forall_mem_nil _)⟩
        rw [state_of_set (hvalue.trans hlength.symm), overwrite_overwrite]
      · refine ⟨shown, state_of_idle ?_, h.concat hvalue⟩
        rw [hlength]
        exact hvalue
  | wipe =>
      exact hwiping (Or.inl rfl)
  | enter =>
      exact ⟨shown, rfl, h.concat trivial⟩
  | leave =>
      exact hwiping (Or.inr rfl)

theorem exists_shows_after (buffer : SecretBuffer) (calls : List Call) :
    exists shown, buffer.after calls = buffer.overwrite shown ∧
      Shows buffer.content calls shown := by
  induction calls using List.reverseRecOn with
  | nil =>
      exact ⟨buffer.content, (overwrite_content buffer).symm, .first (List.forall_mem_nil _)⟩
  | append_singleton calls call ih =>
      rcases ih with ⟨shown, hafter, hshows⟩
      rw [after_append, hafter]
      exact exists_shows_concat buffer hshows call

theorem length_content_after (buffer : SecretBuffer) (calls : List Call) :
    (buffer.after calls).content.length = buffer.content.length := by
  rcases exists_shows_after buffer calls with ⟨shown, hafter, hshows⟩
  rw [hafter, content_overwrite]
  exact hshows.length_eq

theorem content_of_decided {buffer : SecretBuffer} {before after : List Call} {call : Call}
    {value : Bytes} (hcall : (call.run (buffer.after before)).2.content = value)
    (hafter : forall other, other ∈ after -> other.Idle buffer.content.length) :
    (buffer.after (before ++ call :: after)).content = value := by
  have hidle : forall other, other ∈ after ->
      other.Idle ((buffer.after before).after [call]).content.length := by
    intro other hother
    rw [length_content_after, length_content_after]
    exact hafter other hother
  rw [List.append_cons, after_append, after_append, after_of_idle hidle]
  exact hcall

theorem content_after_iff (buffer : SecretBuffer) (calls : List Call) (shown : Bytes) :
    (buffer.after calls).content = shown <-> Shows buffer.content calls shown := by
  constructor
  · intro h
    rcases exists_shows_after buffer calls with ⟨_, hafter, hshows⟩
    rw [hafter, content_overwrite] at h
    rwa [h] at hshows
  · intro h
    cases h with
    | first h =>
        rw [after_of_idle h]
    | value before hvalue hafter =>
        refine content_of_decided ?_ hafter
        rw [state_of_set (hvalue.trans (length_content_after buffer before).symm),
          content_overwrite]
    | zeros before hcall hafter =>
        refine content_of_decided ?_ hafter
        rw [state_of_wiping hcall, content_overwrite, length_content_after]

/-!
# Where the content comes from
-/

def Origin.content {arrays : List Bytes} : Origin arrays -> Bytes
  | .size n => Bytes.zeros n.toNat
  | .data bytes => bytes
  | .lent place => arrays.get place

section Making

variable {arrays : List Bytes}

/-- A size that a byte string can have and for which there is memory. -/
def IsAtHand [Suite] (size : Int) : Prop :=
  Bytes.isSize size = true ∧ 0 <= size ∧ Suite.hasMemory size.toNat = true

theorem make_size_eq_ok [Suite] {size : Int} {start : SecretBuffer} :
    make (.size size : Origin arrays) = .ok start <->
      IsAtHand size ∧ start = fresh arrays (Bytes.zeros size.toNat) := by
  rw [make, IsAtHand]
  split
  next hwide =>
    have hsize : Bytes.isSize size = false := by simpa using hwide
    simp [hsize]
  next hfits =>
    have hsize : Bytes.isSize size = true := by simpa using hfits
    split
    next hnegative =>
      have hrange : ¬ 0 <= size := by omega
      simp [hrange]
    next hnonneg =>
      have hrange : 0 <= size := by omega
      split
      next hmemory =>
        simp [hsize, hrange, hmemory, eq_comm]
      next hmemory =>
        simp [hmemory]

theorem exists_make_iff [Suite] (origin : Origin arrays) :
    (exists start, make origin = .ok start) <->
      forall size, origin = .size size -> IsAtHand size := by
  cases origin with
  | size size =>
      constructor
      · intro h other hother
        rcases h with ⟨start, hstart⟩
        cases hother
        exact (make_size_eq_ok.mp hstart).1
      · intro h
        exact ⟨_, make_size_eq_ok.mpr ⟨h size rfl, rfl⟩⟩
  | data data =>
      exact iff_of_true ⟨_, rfl⟩ (fun _ hsame => by cases hsame)
  | lent place =>
      exact iff_of_true ⟨_, rfl⟩ (fun _ hsame => by cases hsame)

/-- A buffer shows what it was made from, in the array that was lent or in one that is nobody
else's. -/
structure Begins (origin : Origin arrays) (start : SecretBuffer) : Prop where
  content_eq : start.content = origin.content
  place_eq : forall place, origin = .lent place -> start.place = place
  others_eq : forall place : Fin arrays.length, origin ≠ .lent place ->
    (place : Nat) ≠ start.place ∧ start.arrays[(place : Nat)]? = some (arrays.get place)

theorem begins_fresh {origin : Origin arrays} {data : Bytes} (hdata : origin.content = data)
    (hlent : forall place, origin ≠ .lent place) : Begins origin (fresh arrays data) where
  content_eq := by
    rw [hdata]
    simp [content, fresh]
  place_eq := fun place hplace => absurd hplace (hlent place)
  others_eq := by
    intro place _
    refine ⟨Nat.ne_of_lt place.isLt, ?_⟩
    rw [fresh, List.getElem?_append_left place.isLt, List.getElem?_eq_getElem place.isLt]
    rfl

theorem begins_of_make [Suite] {origin : Origin arrays} {start : SecretBuffer}
    (h : make origin = .ok start) : Begins origin start := by
  cases origin with
  | size size =>
      rw [(make_size_eq_ok.mp h).2]
      exact begins_fresh rfl (fun _ hsame => by cases hsame)
  | data data =>
      cases h
      exact begins_fresh rfl (fun _ hsame => by cases hsame)
  | lent place =>
      cases h
      constructor
      · rfl
      · intro other hother
        cases hother
        rfl
      · intro other hother
        refine ⟨fun hsame => hother ?_, ?_⟩
        · rw [Fin.ext hsame]
        · simp

end Making

/-!
# The whole life
-/

section Life

variable {arrays : List Bytes}

structure Tracks (origin : Origin arrays) (calls : List Call) (now : SecretBuffer) : Prop where
  content_iff : forall shown, now.content = shown <-> Shows origin.content calls shown
  length_eq : now.content.length = origin.content.length
  lent_eq : forall place : Fin arrays.length, origin = .lent place ->
    now.arrays[(place : Nat)]? = some now.content
  others_eq : forall place : Fin arrays.length, origin ≠ .lent place ->
    now.arrays[(place : Nat)]? = some (arrays.get place)

theorem Begins.tracks {origin : Origin arrays} {start : SecretBuffer} (h : Begins origin start)
    (calls : List Call) : Tracks origin calls (start.after calls) := by
  rcases exists_shows_after start calls with ⟨shown, hafter, _⟩
  constructor
  · intro shown
    rw [content_after_iff, h.content_eq]
  · rw [length_content_after, h.content_eq]
  · intro place hplace
    have hstart := h.place_eq place hplace
    rw [← hstart, hafter]
    exact getElem?_arrays (start.overwrite shown)
  · intro place hplace
    rcases h.others_eq place hplace with ⟨hne, hother⟩
    rw [hafter, getElem?_arrays_overwrite shown hne, hother]

theorem set_apply (value : Bytes) (buffer : SecretBuffer) :
    set value buffer =
      if value.length = buffer.content.length then (.ok ⟨⟩, buffer.overwrite value)
      else (.error (.misuse (.bufferSize buffer.content.length value.length)), buffer) := by
  split
  next h =>
    exact set_of_length_eq h
  next h =>
    exact set_of_length_ne h

theorem block_run (body : Program) (buffer : SecretBuffer) :
    block body.run buffer =
      ((body.run buffer).1, buffer.overwrite (Bytes.zeros buffer.content.length)) := by
  rcases body.records buffer [] with ⟨calls, _, hcalls⟩
  rcases exists_shows_after buffer calls with ⟨shown, hafter, hshows⟩
  rw [block_apply, hcalls, hafter, content_overwrite, overwrite_overwrite, hshows.length_eq]

/-- A buffer can be made from any bytes, any array, and any size that a byte string can have and for
which there is memory. After any calls it has its first length and shows the value of the last
successful set behind the last wipe or end of a block, or else zeros from these, or else what it was
made from; a lent array shows the same, and every other array is as it was. A set succeeds just in
case the length is the buffer's, and otherwise changes nothing. A block ends as its body does and
leaves zeros, whether a fault ends the body or not. And whatever a program does with the buffer are
calls of this kind, one after the other. -/
theorem content_over_life [Suite] (origin : Origin arrays) :
    ((exists start, make origin = .ok start) <->
      forall size, origin = .size size -> IsAtHand size) ∧
    forall start, make origin = .ok start ->
      (forall calls,
        Tracks origin calls (start.after calls) ∧
        (forall value, set value (start.after calls) =
          if value.length = origin.content.length then
            (.ok ⟨⟩, (start.after calls).overwrite value)
          else
            (.error (.misuse (.bufferSize origin.content.length value.length)),
              start.after calls)) ∧
        forall body : Program, block body.run (start.after calls) =
          ((body.run (start.after calls)).1,
            (start.after calls).overwrite (Bytes.zeros origin.content.length))) ∧
      forall program : Program, exists calls,
        program.runWith recorded (start, []) =
          ((program.run start).1, (program.run start).2, calls) ∧
        (program.run start).2 = start.after calls := by
  refine ⟨exists_make_iff origin, ?_⟩
  intro start hmake
  constructor
  · intro calls
    have htracks := (begins_of_make hmake).tracks calls
    refine ⟨htracks, ?_, ?_⟩
    · intro value
      rw [set_apply, htracks.length_eq]
    · intro body
      rw [block_run, htracks.length_eq]
  · intro program
    rcases program.records start [] with ⟨calls, hrecorded, hcalls⟩
    exact ⟨calls, hrecorded, hcalls⟩

/-- In a lent array, a set that fails inside a block leaves zeros, and the set that is tried next
succeeds. -/
theorem content_over_life_of_lent :
    letI : Suite := Suite.standard
    let arrays : List Bytes := [[255, 255], [7]]
    let origin : Origin arrays := .lent ⟨0, by decide⟩
    let start : SecretBuffer := ⟨arrays, 0, by decide⟩
    let blocked : List Call := [.enter, .set [1, 2], .set [9], .leave]
    let program : Program := .catching (.block (.set [1, 2] (.set [9] .done)) .done)
      (.set [3, 4] .done)
    make origin = .ok start ∧
    (start.after blocked).arrays[0]? = some [0, 0] ∧ Shows [255, 255] blocked [0, 0] ∧
    exists calls, program.runWith recorded (start, []) =
        (.ok ⟨⟩, ⟨[[3, 4], [7]], 0, by decide⟩, calls) ∧
      (program.run start).2 = start.after calls := by
  let _ : Suite := Suite.standard
  intro arrays origin start blocked program
  rcases (content_over_life origin).2 start rfl with ⟨hcalls, hprogram⟩
  have htracks := (hcalls blocked).1
  exact ⟨rfl, htracks.lent_eq _ rfl, (htracks.content_iff [0, 0]).mp rfl, hprogram program⟩

end Life

end SecretBuffer
end WalletVault

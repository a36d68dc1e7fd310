import Codelib.Core.Linearizable
import Codelib.Ktoy.Ioctl

/-!
# Codelib.Ktoy.Concurrent

**Many processes in `ktoy_ioctl` at once** (`linearizable`). The driver takes no lock. A call
touches the device value once, though: `__get_user` stores to it when it has read user memory, and
`__put_user` loads it before it writes there. So the calls behave as if they were made one after the
other, each at a moment between its beginning and its return.

A process is cut where it touches the device value or user memory. What is at the address of a call
is in the `Call`.
-/

namespace Codelib.Ktoy

variable (accessOk : Verify → BitVec 64 → Nat → Bool)

/-- The pointer of a `KTOY_IOC_SET` has been verified. -/
structure Verified (c : Call) : Prop where
  cmd : c.cmd = ktoyIocSet
  access : accessOk .read c.arg 4

/-- Where a process is. -/
inductive Control
  | outside
  | entered (c : Call)
  /-- About to store what was read from user memory. -/
  | storing (c : Call) (h : Verified accessOk c)
  /-- About to store `x` to user memory. -/
  | putting (c : Call) (x : BitVec 32)
  | returning (retval : Int) (toUser : Option (BitVec 32))

/-- What a caller sees of a call: its result, and the int that was stored to user memory. -/
abbrev Answer := Int × Option (BitVec 32)

/-- A call that nothing else happens to. -/
def apply (ktoyVal : BitVec 32) (c : Call) : BitVec 32 × Answer :=
  let result := ktoyIoctl accessOk ktoyVal c
  (result.ktoyVal, result.retval, result.toUser)

variable {accessOk} in
theorem Verified.of_checked {c : Call} (hset : c.cmd = ktoyIocSet) (h : ¬ pointerErr accessOk c) :
    Verified accessOk c := by
  have hdir : iocDir c.cmd &&& iocWrite ≠ 0 := by
    rw [hset]
    decide
  have hsize : (iocSize c.cmd).toNat = 4 := by
    rw [hset]
    decide
  rw [pointerErr, if_pos hdir, hsize] at h
  exact ⟨hset, by simpa using h⟩

/-- The next step of a process, from the entry of `ktoy_ioctl` to its return. -/
def go (ktoyVal : BitVec 32) : Control accessOk → Option (BitVec 32 × Control accessOk)
  | .entered c =>
    -- make sure the command belongs to this module
    if iocType c.cmd ≠ ktoyIocMagic then some (ktoyVal, .returning (-enotty) none)
    -- make sure command number is in valid range
    else if iocNr c.cmd > ktoyIocMaxnr then some (ktoyVal, .returning (-enotty) none)
    else if hp : pointerErr accessOk c then some (ktoyVal, .returning (-efault) none)
    else if hset : c.cmd = ktoyIocSet then some (ktoyVal, .storing c (.of_checked hset hp))
    else if c.cmd = ktoyIocGet then some (ktoyVal, .putting c ktoyVal)
    else some (ktoyVal, .returning 0 none)
  | .storing c _ => some ((getUser c.word).2, .returning (getUser c.word).1 none)
  | .putting c x =>
    some (ktoyVal, .returning (putUser x c.writable).1 (putUser x c.writable).2)
  | .outside | .returning .. => none

/-- The driver: the device value, and where each process is. -/
structure Driver (P : Type) where
  ktoyVal : BitVec 32
  control : P → Control accessOk

/-- What a process can do. -/
inductive Act
  | call (c : Call)
  | go
  | ret

variable {accessOk}

/-- Where a process is, for its caller: a call takes effect with its access to the device value, or
where it is refused. -/
def Control.place : Control accessOk → Place Call Answer
  | .outside => .outside
  | .entered c | .storing c _ => .called c
  | .putting c x => .done (putUser x c.writable)
  | .returning retval toUser => .done (retval, toUser)

variable {P : Type} [DecidableEq P]

namespace Driver

/-- What is seen of a step: nothing, if its process has not got any further for its caller. -/
def seen (p : P) : Place Call Answer → Place Call Answer → Option (Access P Call Answer)
  | .outside, .called c => some (.call p c)
  | .called c, .done r => some (.effect p c r)
  | .done r, .outside => some (.ret p r)
  | _, _ => none

/-- The step of process `p` to `k`, which leaves `ktoyVal` behind. -/
def move (d : Driver accessOk P) (p : P) (ktoyVal : BitVec 32) (k : Control accessOk) :
    Option (Access P Call Answer) × Driver accessOk P :=
  (seen p (d.control p).place k.place, ⟨ktoyVal, Function.update d.control p k⟩)

def exec (d : Driver accessOk P) : P × Act →
    Option (Option (Access P Call Answer) × Driver accessOk P)
  | (p, .call c) =>
    match d.control p with
    | .outside => some (d.move p d.ktoyVal (.entered c))
    | _ => none
  | (p, .go) => (go accessOk d.ktoyVal (d.control p)).map fun r => d.move p r.1 r.2
  | (p, .ret) =>
    match d.control p with
    | .returning .. => some (d.move p d.ktoyVal .outside)
    | _ => none

def Step (d : Driver accessOk P) (seen : Option (Access P Call Answer)) (d' : Driver accessOk P) :
    Prop :=
  ∃ k, d.exec k = some (seen, d')

/-- The device as a caller knows it. -/
def atomic (d : Driver accessOk P) : Atomic P Call Answer (BitVec 32) :=
  ⟨d.ktoyVal, fun p => (d.control p).place⟩

/-- No process is in `ktoy_ioctl`. -/
def start (P : Type) (ktoyVal : BitVec 32) : Driver accessOk P := ⟨ktoyVal, fun _ => .outside⟩

end Driver

/-! ### One step -/

variable {ktoyVal ktoyVal' : BitVec 32} {k k' : Control accessOk}

/-- A step within a call is silent, or it is the effect of the call. -/
theorem go_cases (h : go accessOk ktoyVal k = some (ktoyVal', k')) :
    (∃ c, k.place = .called c ∧ k'.place = .called c ∧ ktoyVal' = ktoyVal) ∨
      (∃ r, k.place = .done r ∧ k'.place = .done r ∧ ktoyVal' = ktoyVal) ∨
        ∃ c r, k.place = .called c ∧ k'.place = .done r ∧
          apply accessOk ktoyVal c = (ktoyVal', r) := by
  cases k with
  | outside => exact absurd h nofun
  | returning retval toUser => exact absurd h nofun
  | putting c x =>
      obtain ⟨rfl, rfl⟩ := Prod.mk.inj (Option.some.inj h)
      exact .inr (.inl ⟨_, rfl, rfl, rfl⟩)
  | storing c hc =>
      obtain ⟨rfl, rfl⟩ := Prod.mk.inj (Option.some.inj h)
      refine .inr (.inr ⟨c, _, rfl, rfl, ?_⟩)
      rw [apply, ktoyIoctl_set hc.cmd, if_pos hc.access]
  | entered c =>
      have heffect (htail : ∃ r, k'.place = .done r ∧ apply accessOk ktoyVal c = (ktoyVal', r)) :
          ∃ c' r, (Control.entered c : Control accessOk).place = .called c' ∧ k'.place = .done r ∧
            apply accessOk ktoyVal c' = (ktoyVal', r) := by
        obtain ⟨r, hplace, happly⟩ := htail
        exact ⟨c, r, rfl, hplace, happly⟩
      unfold apply ktoyIoctl dispatch at heffect
      unfold go at h
      dsimp only at h
      by_cases htype : iocType c.cmd ≠ ktoyIocMagic
      · rw [if_pos htype] at h heffect
        obtain ⟨rfl, rfl⟩ := Prod.mk.inj (Option.some.inj h)
        exact .inr (.inr (heffect ⟨_, rfl, rfl⟩))
      rw [if_neg htype] at h heffect
      by_cases hnr : iocNr c.cmd > ktoyIocMaxnr
      · rw [if_pos hnr] at h heffect
        obtain ⟨rfl, rfl⟩ := Prod.mk.inj (Option.some.inj h)
        exact .inr (.inr (heffect ⟨_, rfl, rfl⟩))
      rw [if_neg hnr] at h heffect
      by_cases hp : pointerErr accessOk c
      · rw [dif_pos hp] at h
        rw [if_pos hp] at heffect
        obtain ⟨rfl, rfl⟩ := Prod.mk.inj (Option.some.inj h)
        exact .inr (.inr (heffect ⟨_, rfl, rfl⟩))
      rw [dif_neg hp] at h
      rw [if_neg hp] at heffect
      by_cases hset : c.cmd = ktoyIocSet
      · -- user memory is read first
        rw [dif_pos hset] at h
        obtain ⟨rfl, rfl⟩ := Prod.mk.inj (Option.some.inj h)
        exact .inl ⟨c, rfl, rfl, rfl⟩
      rw [dif_neg hset] at h
      rw [if_neg hset] at heffect
      by_cases hget : c.cmd = ktoyIocGet
      · rw [if_pos hget] at h heffect
        obtain ⟨rfl, rfl⟩ := Prod.mk.inj (Option.some.inj h)
        exact .inr (.inr (heffect ⟨_, rfl, rfl⟩))
      · rw [if_neg hget] at h heffect
        obtain ⟨rfl, rfl⟩ := Prod.mk.inj (Option.some.inj h)
        exact .inr (.inr (heffect ⟨_, rfl, rfl⟩))

/-! ### The simulation -/

variable {d d' : Driver accessOk P} {p : P} {seen : Option (Access P Call Answer)}

theorem atomic_move : (d.move p ktoyVal k).2.atomic =
    ⟨ktoyVal, Function.update d.atomic.place p k.place⟩ := by
  refine congrArg (Atomic.mk ktoyVal) (funext fun q => ?_)
  rcases eq_or_ne q p with rfl | hq
  · simp [Driver.move]
  · simp [Driver.move, Driver.atomic, hq]

/-- What a step is for the atomic object. -/
def Simulates (d : Driver accessOk P) (seen : Option (Access P Call Answer)) (d' : Driver accessOk P) :
    Prop :=
  match seen with
  | none => d'.atomic = d.atomic
  | some a => Atomic.Step (apply accessOk) d.atomic a d'.atomic

/-- A step that does not get a process any further for its caller. -/
theorem simulates_silent (hplace : (d.control p).place = k.place)
    (hsilent : Driver.seen p k.place k.place = none) :
    Simulates d (d.move p d.ktoyVal k).1 (d.move p d.ktoyVal k).2 := by
  rw [Driver.move, hplace, hsilent]
  refine atomic_move.trans (congrArg (Atomic.mk d.ktoyVal) ?_)
  rw [← hplace]
  exact Function.update_eq_self p d.atomic.place

theorem simulates_seen {a : Access P Call Answer} (hp : a.proc = p)
    (hseen : Driver.seen p (d.control p).place k.place = some a)
    (hval : Atomic.Next (apply accessOk) d.ktoyVal a ktoyVal)
    (hplace : (d.control p).place.Step a k.place) :
    Simulates d (d.move p ktoyVal k).1 (d.move p ktoyVal k).2 := by
  obtain rfl := hp
  rw [Driver.move, hseen]
  exact ⟨hval, k.place, hplace, congrArg Atomic.place atomic_move⟩

theorem simulates_of_step (h : d.Step seen d') : Simulates d seen d' := by
  obtain ⟨⟨p, act⟩, h⟩ := h
  cases act with
  | call c =>
      unfold Driver.exec at h
      dsimp only at h
      split at h
      · case h_1 hc =>
          obtain ⟨rfl, rfl⟩ := Prod.mk.inj (Option.some.inj h)
          have hplace : (d.control p).place = .outside := by rw [hc]; rfl
          refine simulates_seen (a := .call p c) rfl ?_ rfl ?_
          · rw [hplace]
            rfl
          · rw [hplace]
            exact .call
      · exact absurd h nofun
  | ret =>
      unfold Driver.exec at h
      dsimp only at h
      split at h
      · case h_1 retval toUser hc =>
          obtain ⟨rfl, rfl⟩ := Prod.mk.inj (Option.some.inj h)
          have hplace : (d.control p).place = .done (retval, toUser) := by rw [hc]; rfl
          refine simulates_seen (a := .ret p (retval, toUser)) rfl ?_ rfl ?_
          · rw [hplace]
            rfl
          · rw [hplace]
            exact .ret
      · exact absurd h nofun
  | go =>
      obtain ⟨⟨ktoyVal, k⟩, hgo, heq⟩ := Option.map_eq_some_iff.mp h
      obtain ⟨rfl, rfl⟩ := Prod.mk.inj heq
      rcases go_cases hgo with ⟨c, hc, hk, rfl⟩ | ⟨r, hr, hk, rfl⟩ | ⟨c, r, hc, hk, happly⟩
      · exact simulates_silent (hc.trans hk.symm) (by rw [hk]; rfl)
      · exact simulates_silent (hr.trans hk.symm) (by rw [hk]; rfl)
      · refine simulates_seen (a := .effect p c r) rfl ?_ happly ?_
        · rw [hc, hk]
          rfl
        · rw [hc, hk]
          exact .effect

/-- The effects of a run are the calls of a sequential one. -/
theorem trace_of_effects {es : List (Call × Answer)}
    (h : Run (fun v (x : Call × Answer) v' => apply accessOk v x.1 = (v', x.2)) ktoyVal es ktoyVal') :
    es = (trace accessOk ktoyVal (es.map Prod.fst)).map
      fun t => (t.call, t.result.retval, t.result.toUser) := by
  induction es generalizing ktoyVal with
  | nil => rfl
  | cons x es ih =>
      obtain ⟨v, hx, hes⟩ := Run.append_iff.mp (List.singleton_append ▸ h)
      obtain ⟨u, hnil, hstep⟩ := Run.snoc_iff.mp (List.nil_append [x] ▸ hx)
      obtain rfl := Run.nil_iff.mp hnil
      obtain ⟨rfl, hanswer⟩ := Prod.mk.inj hstep
      obtain ⟨c, answer⟩ := x
      rw [List.map_cons, trace, List.map_cons, ← ih hes]
      exact congrArg (fun a => (c, a) :: es) hanswer.symm

/-- **The driver is linearizable**: whatever the processes do, in any order, the answers are those of
calls that are made one after the other, and each call takes effect once, after its beginning and
before its return. -/
theorem linearizable {ls : List (Option (Access P Call Answer))}
    (h : Run Driver.Step (.start P ktoyVal : Driver accessOk P) ls d) :
    effects (ls.filterMap id) =
        (trace accessOk ktoyVal ((effects (ls.filterMap id)).map Prod.fst)).map
          (fun t => (t.call, t.result.retval, t.result.toUser)) ∧
      ∀ p, Run Place.Step .outside ((ls.filterMap id).filter (·.proc = p)) (d.control p).place := by
  have hrun : Run (Atomic.Step (apply accessOk)) (Driver.start P ktoyVal).atomic (ls.filterMap id)
      d.atomic :=
    Run.of_simulation (f := Driver.atomic) (fun hs => simulates_of_step hs)
      (fun hs => simulates_of_step hs) h
  exact ⟨trace_of_effects (Atomic.effects_run hrun), fun p => Atomic.cycle_of_run hrun p⟩

def getCall : Call := ⟨ktoyIocGet, 0x1000, none, true⟩

def setCall : Call := ⟨ktoyIocSet, 0x2000, some 5, false⟩

/-- One process has loaded the value when the other stores its own. -/
def overlap : List (Nat × Act) :=
  [(0, .call getCall), (1, .call setCall), (0, .go), (1, .go), (1, .go), (1, .ret), (0, .go), (0, .ret)]

theorem linearizable_overlap :
    ∃ ls, ∃ d : Driver (fun _ _ _ => true) Nat, Run Driver.Step (.start Nat 0xdeadbeef) ls d ∧
      effects (ls.filterMap id) = [(getCall, 0, some 0xdeadbeef), (setCall, 0, none)] ∧
      effects (ls.filterMap id) =
        (trace (fun _ _ _ => true) 0xdeadbeef ((effects (ls.filterMap id)).map Prod.fst)).map
          (fun t => (t.call, t.result.retval, t.result.toUser)) := by
  have hseen : (observe Driver.exec (.start Nat 0xdeadbeef : Driver (fun _ _ _ => true) Nat)
      overlap).map (fun r => effects (r.1.filterMap id)) =
        some [(getCall, 0, some 0xdeadbeef), (setCall, 0, none)] := by
    decide +kernel
  obtain ⟨⟨ls, d⟩, hr, heffects⟩ := Option.map_eq_some_iff.mp hseen
  exact ⟨ls, d, Run.of_observe hr, heffects, (linearizable (Run.of_observe hr)).1⟩

end Codelib.Ktoy

import Toolpath.Proofs.ArmHistory
import Toolpath.Proofs.FiniteRun

/-!
# How far the simulated arm goes

A reach limit is a bound on the distance of positions from the base. The arm refuses a command where
a distance is more than the limit, and an undefined number is not more than anything. This module
says which commands come through: those whose positions lie within the limit, and those with an
undefined coordinate, for which the limit says nothing.

A length is undefined exactly where a coordinate is (`isNaN_norm_iff`): no square is negative, so no
infinities meet that would cancel, and a sum that overflows is more than any finite limit. What is
not more than a limit is at most the limit, or undefined (`not_lt_iff`). From these two follows what
the arm refuses (`refusal?_eq_none_iff`).

The law (`run_within_reach`) is about all calls to an arm with a limit, and `run_to_nowhere` shows
that its exception for undefined coordinates is needed. It says nothing of how well a length is
rounded: a position is within a limit if its computed length is.
-/

namespace Toolpath

/-! ## Signs of doubles -/

namespace Decimal

open Float.Model (Format UnpackedFloat)
open Float.Model.UnpackedFloat

/-- The sign of a number that has been unpacked. An undefined one has none. -/
def unpackedSign? : UnpackedFloat → Option Sign
  | .notANumber => none
  | .infinity sign | .zero sign | .finite sign .. => some sign

theorem unpackedSign?_components (sign : Sign) {exponent : BitVec 11} (mantissa : BitVec 52)
    (below : exponent ≠ -1#11) :
    unpackedSign? (UnpackedFloat.unpack Format.binary64
      (packComponents Format.binary64 sign exponent mantissa)) = some sign := by
  unfold UnpackedFloat.unpack
  simp only [unpackMantissa_packComponents, unpackExponent_packComponents,
    unpackSign_packComponents, Sign.ofBitVec_toBitVec, if_neg below]
  split
  · split
    · rfl
    · rfl
  · rfl

/-- **Packing keeps the sign**, also where it loses digits or makes an infinity. -/
theorem unpackedSign?_pack (u : UnpackedFloat) :
    unpackedSign? (Float.Model.pack u).unpack = unpackedSign? u := by
  cases u with
  | notANumber => rfl
  | infinity sign | zero sign => cases sign <;> rfl
  | finite sign m e positive =>
    show unpackedSign? (UnpackedFloat.unpack Format.binary64
      (UnpackedFloat.pack Format.binary64 (.finite sign m e positive))) = some sign
    rw [pack_finite]
    split
    next => cases sign <;> rfl
    next inRange =>
      have below : BitVec.ofNat 11 (e + 1023 + 52).toNat ≠ -1#11 := by
        rw [Ne, ← BitVec.toNat_inj, BitVec.toNat_ofNat]
        show ¬ _ = 2047
        omega
      split
      next => exact unpackedSign?_components sign _ below
      next => exact unpackedSign?_components sign _ (by decide)

theorem unpackedSign?_roundWithAccuracy (sign : Sign) (m : Nat) (e : Int) (accuracy : Accuracy) :
    unpackedSign? (roundWithAccuracy Format.binary64 sign m e accuracy) = some sign := by
  unfold roundWithAccuracy
  simp only
  split
  · rfl
  · rfl

theorem unpackedSign?_normalize {m : Int} (atLeastZero : 0 ≤ m) (e : Int) :
    unpackedSign? (normalize Format.binary64 m e .positive) = some .positive := by
  unfold UnpackedFloat.normalize
  split
  next below => exact absurd (compare_lt_iff_lt.mp below) (not_lt.mpr atLeastZero)
  next => rfl
  next => exact unpackedSign?_roundWithAccuracy ..

/-- A square is positive, and undefined where the number is. -/
theorem unpackedSign?_mul_self (u : UnpackedFloat) :
    unpackedSign? (mul Format.binary64 u u) = (unpackedSign? u).map fun _ => .positive := by
  cases u with
  | notANumber => rfl
  | infinity sign | zero sign => cases sign <;> rfl
  | finite sign m e positive =>
    unfold mul
    rw [unpackedSign?_roundWithAccuracy]
    cases sign <;> rfl

/-- A sum without negative terms is positive, and undefined where one of them is. -/
theorem unpackedSign?_add {u v : UnpackedFloat} (left : unpackedSign? u ≠ some .negative)
    (right : unpackedSign? v ≠ some .negative) :
    unpackedSign? (add Format.binary64 u v) = (unpackedSign? u).bind fun _ => unpackedSign? v := by
  -- The negative cases go first: infinities of two signs would cancel to an undefined sum.
  rcases u with (_ | _) | _ | (_ | _) | ⟨_ | _, m, e, _⟩
  case infinity.negative | zero.negative | finite.negative => exact absurd rfl left
  all_goals rcases v with (_ | _) | _ | (_ | _) | ⟨_ | _, n, f, _⟩
  case finite.positive.finite.positive =>
    exact unpackedSign?_normalize (Int.add_nonneg (Int.natCast_nonneg _) (Int.natCast_nonneg _)) _
  all_goals first | rfl | exact absurd rfl right

/-- A root of what is not negative is undefined where that is. -/
theorem unpackedSign?_sqrt {u : UnpackedFloat} (sign : unpackedSign? u ≠ some .negative) :
    unpackedSign? (sqrt Format.binary64 u) = unpackedSign? u := by
  rcases u with (_ | _) | _ | (_ | _) | ⟨_ | _, m, e, _⟩
  case infinity.negative | finite.negative => exact absurd rfl sign
  case finite.positive => exact unpackedSign?_roundWithAccuracy ..
  all_goals rfl

/-- The sign of a number. An undefined one has none. -/
def sign? (x : Float) : Option Sign := unpackedSign? x.toModel.unpack

theorem sign?_eq_none_iff {x : Float} : sign? x = none ↔ x.isNaN = true := by
  show unpackedSign? x.toModel.unpack = none ↔ x.toModel.unpack.isNaN = true
  cases x.toModel.unpack with
  | notANumber => exact ⟨fun _ => rfl, fun _ => rfl⟩
  | infinity | zero | finite => exact ⟨nofun, nofun⟩

theorem sign?_mul_self (x : Float) : sign? (x * x) = (sign? x).map fun _ => .positive :=
  (unpackedSign?_pack _).trans (unpackedSign?_mul_self _)

theorem sign?_mul_self_ne (x : Float) : sign? (x * x) ≠ some .negative := by
  rw [sign?_mul_self]
  cases sign? x <;> nofun

theorem sign?_add {x y : Float} (left : sign? x ≠ some .negative)
    (right : sign? y ≠ some .negative) : sign? (x + y) = (sign? x).bind fun _ => sign? y :=
  (unpackedSign?_pack _).trans (unpackedSign?_add left right)

theorem sign?_add_ne {x y : Float} (left : sign? x ≠ some .negative)
    (right : sign? y ≠ some .negative) : sign? (x + y) ≠ some .negative := by
  rw [sign?_add left right]
  cases sign? x with
  | none => nofun
  | some _ => exact right

theorem sign?_sqrt {x : Float} (sign : sign? x ≠ some .negative) : sign? x.sqrt = sign? x :=
  (unpackedSign?_pack _).trans (unpackedSign?_sqrt sign)

end Decimal

/-! ## Lengths -/

/-- A point with a coordinate that is undefined. -/
def Point.Undefined (p : Point Float) : Prop := ∃ c ∈ p.toList, c.isNaN = true

open Decimal in
/-- **A length is undefined exactly where a coordinate is.** -/
theorem Point.isNaN_norm_iff (p : Point Float) : p.norm.isNaN = true ↔ p.Undefined := by
  have squares (x : Float) : sign? (x * x) ≠ some .negative := sign?_mul_self_ne x
  have two := sign?_add_ne (squares p.x) (squares p.y)
  have root : sign? p.norm = sign? (p.x * p.x + p.y * p.y + p.z * p.z) :=
    sign?_sqrt (sign?_add_ne two (squares p.z))
  unfold Undefined toList
  rw [← sign?_eq_none_iff, root, sign?_add two (squares p.z), sign?_add (squares p.x) (squares p.y)]
  simp only [sign?_mul_self, List.exists_mem_cons_iff, ← sign?_eq_none_iff]
  cases sign? p.x <;> cases sign? p.y <;> cases sign? p.z <;> simp

/-! ## One command -/

namespace SimulatedArm

/-- What a limit lets through: a pose no further from the base, and one that is nowhere. -/
def LetsThrough (limit : Float) (pose : Pose Float) : Prop :=
  pose.position.norm ≤ limit ∨ pose.position.Undefined

variable {limit : Float} {command : MotionCommand Float}

/-- A pose is refused by a limit unless it is let through, and by nothing else. -/
theorem beyond?_eq_none_iff (defined : limit.isNaN = false) {pose : Pose Float} :
    beyond? limit pose = none ↔ LetsThrough limit pose := by
  unfold LetsThrough
  rw [← Point.isNaN_norm_iff, ← Decimal.not_lt_iff defined]
  unfold beyond?
  simp only [gt_iff_lt, ite_eq_right_iff, reduceCtorEq, imp_false]

/-- The arm refuses a command unless the limit lets all of its poses through. -/
theorem refusal?_eq_none_iff (defined : limit.isNaN = false) :
    refusal? (some limit) command = none ↔ ∀ pose ∈ command.poses, LetsThrough limit pose := by
  unfold refusal? MotionCommand.poses
  rw [Option.bind_some, Option.or_eq_none_iff, beyond?_eq_none_iff defined, List.forall_mem_cons]
  cases command.via? with
  | none => simp
  | some via => simp [beyond?_eq_none_iff defined]

theorem eq_of_beyond? {pose : Pose Float} {e : ActuationError}
    (refused : beyond? limit pose = some e) :
    e = .outOfReach pose.position pose.position.norm limit := by
  unfold beyond? at refused
  simp only [Option.ite_none_right_eq_some, Option.some.injEq] at refused
  exact refused.2.symm

/-- A refusal names one of the command's poses, and how far it is. -/
theorem exists_of_refusal? {e : ActuationError}
    (refused : refusal? (some limit) command = some e) :
    ∃ pose ∈ command.poses, e = .outOfReach pose.position pose.position.norm limit := by
  unfold refusal? at refused
  rw [Option.bind_some, Option.or_eq_some_iff] at refused
  obtain far | ⟨_, far⟩ := refused
  · exact ⟨command.target, List.mem_cons_self, eq_of_beyond? far⟩
  · obtain ⟨via, passes, far⟩ := Option.bind_eq_some_iff.mp far
    refine ⟨via, ?_, eq_of_beyond? far⟩
    exact List.mem_cons_of_mem _ (Option.mem_toList.mpr passes)

/-! ## Runs of calls -/

variable {start : SimulatedArm}

/-- Every command carried out on a run was let through. -/
theorem letsThrough_of_moved (limited : start.reachLimit = some limit)
    (defined : limit.isNaN = false) (calls : List Call) :
    ∀ record ∈ (history start calls).filterMap Entry.moved?, ∀ pose ∈ record.command.poses,
      LetsThrough limit pose := by
  induction calls generalizing start with
  | nil => nofun
  | cons call rest ih =>
    intro record carriedOut
    obtain ⟨e, seen, moved⟩ := List.mem_filterMap.mp carriedOut
    rcases List.mem_cons.mp seen with rfl | later
    · obtain ⟨_, near⟩ := (leads start call).free record moved
      rw [limited] at near
      exact (refusal?_eq_none_iff defined).mp near
    · have kept : (next start call).reachLimit = some limit :=
        (leads start call).reachLimit.trans limited
      exact ih kept record (List.mem_filterMap.mpr ⟨e, later, moved⟩)

/-- **No command leads beyond the limit, unless to nowhere.** Over every run of calls to an arm with
a limit, a command is carried out only if each of its poses is within the limit or has an undefined
coordinate, and every record that the arm gives out or holds is of such a command or was there at
the start. A command with any other pose is refused, with the armed fault or else with the distance
of a pose of its own, and the arm stays where it is with the records that it has. Nothing else is
refused by the reach, so that a command to nowhere is carried out. -/
theorem run_within_reach (start : SimulatedArm) (limit : Float)
    (limited : start.reachLimit = some limit) (defined : limit.isNaN = false)
    (calls : List Call) :
    let seen := history start calls
    let now := run start calls
    (∀ record ∈ seen.filterMap Entry.moved?, ∀ pose ∈ record.command.poses,
      LetsThrough limit pose) ∧
    (∀ record ∈ seen.flatMap Entry.taken ++ now.records.toList,
      record ∈ start.records.toList ∨ ∀ pose ∈ record.command.poses, LetsThrough limit pose) ∧
    (∀ handles command wait, (∃ pose ∈ command.poses, ¬ LetsThrough limit pose) →
      ∃ e after, make now (.arm handles (.perform command wait)) = (.arm (.failed e), after) ∧
        after.pose = now.pose ∧ after.records = now.records ∧
        (now.fault = some e ∨ now.fault = none ∧
          ∃ pose ∈ command.poses, e = .outOfReach pose.position pose.position.norm limit)) ∧
    (∀ handles command wait, now.fault = none →
      (∀ pose ∈ command.poses, LetsThrough limit pose) →
      (make now (.arm handles (.perform command wait))).1 = .arm .done) := by
  intro seen now
  have through := letsThrough_of_moved limited defined calls
  have reach : now.reachLimit = some limit :=
    (run_keeps reachLimit (fun arm call => (leads arm call).reachLimit) start calls).trans limited
  refine ⟨through, ?_, ?_, ?_⟩
  · intro record given
    rw [run_records] at given
    exact (List.mem_append.mp given).imp_right (through record)
  · rintro handles command wait ⟨pose, passes, far⟩
    rw [make_perform]
    cases armed : now.fault with
    | some e => exact ⟨e, _, rfl, rfl, rfl, .inl rfl⟩
    | none =>
      rw [reach]
      cases refused : refusal? (some limit) command with
      | some e => exact ⟨e, _, rfl, rfl, rfl, .inr ⟨rfl, exists_of_refusal? refused⟩⟩
      | none => exact absurd ((refusal?_eq_none_iff defined).mp refused pose passes) far
  · intro handles command wait unarmed near
    rw [make_perform, unarmed, reach, (refusal?_eq_none_iff defined).mpr near]

/-- A limit of a hundred stops a command to twice as far, and not one through there to the base. -/
theorem run_within_reach_twice_as_far :
    let start := (atPose Pose.identity).withReachLimit 100.0
    let far : Pose Float := Pose.displacement ⟨200.0, 0.0, 0.0⟩
    let call : Call := .arm [] (.perform (.circular far Pose.identity) .blocking)
    start.reachLimit = some 100.0 ∧ (100.0 : Float).isNaN = false ∧ ¬ LetsThrough 100.0 far ∧
      ∃ e after, make start call = (.arm (.failed e), after) ∧ after.pose = start.pose := by
  intro start far call
  have beyond : ¬ LetsThrough 100.0 far := by
    unfold LetsThrough Point.Undefined
    decide +kernel
  have passes : far ∈ (MotionCommand.circular far Pose.identity).poses :=
    List.mem_cons_of_mem _ (List.mem_singleton_self far)
  obtain ⟨_, _, refused, _⟩ := run_within_reach start 100.0 rfl rfl []
  obtain ⟨e, after, told, pose, _⟩ := refused [] _ .blocking ⟨far, passes, beyond⟩
  exact ⟨rfl, rfl, beyond, e, after, told, pose⟩

/-- **A limit does not keep an arm from going nowhere.** A command to an undefined coordinate is
carried out, and its record holds a position that is not within the limit. -/
theorem run_to_nowhere :
    let limit : Float := 100.0
    let start := (atPose Pose.identity).withReachLimit limit
    let nowhere : Pose Float := Pose.ofQuaternion ⟨0.0 / 0.0, 0.0, 0.0⟩ ⟨1.0, 0.0, 0.0, 0.0⟩
    let call : Call := .arm [] (.perform (.rapid nowhere) .blocking)
    limit.isFinite = true ∧ 0.0 < limit ∧
      (history start [call]).map Entry.answer = [.arm .done] ∧
      (run start [call]).records = #[⟨.rapid nowhere, .blocking⟩] ∧
      ¬ nowhere.position.norm ≤ limit := by
  intro limit start nowhere call
  have notMore : ¬ nowhere.position.norm > limit := by decide +kernel
  have near : refusal? start.reachLimit (.rapid nowhere) = none :=
    Option.or_eq_none_iff.mpr ⟨if_neg notMore, rfl⟩
  have made := make_perform start [] (.rapid nowhere) .blocking
  rw [near] at made
  refine ⟨by decide, by decide, ?_, ?_, by decide +kernel⟩
  · show [(make start call).1] = _
    rw [made]
    rfl
  · show (make start call).2.records = _
    rw [made]
    rfl

end SimulatedArm

end Toolpath

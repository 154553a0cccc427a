import ArchiveLedger.Journal.Documents

/-!
# JSON values

Equality of values is decidable, field by field, and so is the equality of `serde_json` (`same`), which tells
the two zeros of a floating-point number not apart.  `depth` is how far arrays and objects nest.
-/

namespace ArchiveLedger

namespace Json

/-! ### Equality -/

section

variable (num : String → String → Bool)

mutual

/-- Equality field by field, with an equality of numbers. -/
def eqWith : Json → Json → Bool
  | .null, .null => true
  | .bool a, .bool b => a == b
  | .num a, .num b => num a b
  | .str a, .str b => a == b
  | .arr a, .arr b => eqItems a b
  | .obj a, .obj b => eqFields a b
  | _, _ => false

def eqItems : List Json → List Json → Bool
  | [], [] => true
  | a :: l, b :: m => eqWith a b && eqItems l m
  | _, _ => false

def eqFields : List (String × Json) → List (String × Json) → Bool
  | [], [] => true
  | (k, a) :: l, (j, b) :: m => k == j && eqWith a b && eqFields l m
  | _, _ => false

end

end

def beq (a b : Json) : Bool := a.eqWith (fun s t => s == t) b

mutual

theorem eqWith_iff : ∀ a b : Json, a.eqWith (fun s t => s == t) b = true ↔ a = b
  | .null, b => by cases b <;> simp [eqWith]
  | .bool a, b => by cases b <;> simp [eqWith]
  | .num a, b => by cases b <;> simp [eqWith]
  | .str a, b => by cases b <;> simp [eqWith]
  | .arr a, b => by
    cases b with
    | arr b => rw [eqWith, eqItems_iff a b, arr.injEq]
    | _ => simp [eqWith]
  | .obj a, b => by
    cases b with
    | obj b => rw [eqWith, eqFields_iff a b, obj.injEq]
    | _ => simp [eqWith]

theorem eqItems_iff : ∀ a b : List Json, eqItems (fun s t => s == t) a b = true ↔ a = b
  | [], b => by cases b <;> simp [eqItems]
  | a :: l, [] => by simp [eqItems]
  | a :: l, b :: m => by
    rw [eqItems, Bool.and_eq_true, eqWith_iff a b, eqItems_iff l m, List.cons.injEq]

theorem eqFields_iff : ∀ a b : List (String × Json), eqFields (fun s t => s == t) a b = true ↔ a = b
  | [], b => by cases b <;> simp [eqFields]
  | (k, a) :: l, [] => by simp [eqFields]
  | (k, a) :: l, (j, b) :: m => by
    rw [eqFields, Bool.and_eq_true, Bool.and_eq_true, eqWith_iff a b, eqFields_iff l m, List.cons.injEq,
      Prod.mk.injEq, beq_iff_eq]

end

theorem beq_iff (a b : Json) : a.beq b = true ↔ a = b := eqWith_iff a b

instance : DecidableEq Json := fun a b => decidable_of_iff (a.beq b = true) (beq_iff a b)

/-- Numbers that are equal: of two texts, only those of the zeros of a floating-point number. -/
def sameNumber (a b : String) : Bool := a == b || (a = "0.0" || a = "-0.0") && (b = "0.0" || b = "-0.0")

/-- `Value::eq`. -/
def same (a b : Json) : Bool := a.eqWith sameNumber b

mutual

/-- Where every number is equal to itself, every value is. -/
theorem eqWith_refl {num : String → String → Bool} (hnum : ∀ text, num text text = true) :
    ∀ v : Json, v.eqWith num v = true
  | .null => rfl
  | .bool b => by simp [eqWith]
  | .num text => hnum text
  | .str text => by simp [eqWith]
  | .arr items => by rw [eqWith, eqItems_refl hnum items]
  | .obj fields => by rw [eqWith, eqFields_refl hnum fields]

theorem eqItems_refl {num : String → String → Bool} (hnum : ∀ text, num text text = true) :
    ∀ l : List Json, eqItems num l l = true
  | [] => rfl
  | v :: l => by rw [eqItems, eqWith_refl hnum v, eqItems_refl hnum l]; rfl

theorem eqFields_refl {num : String → String → Bool} (hnum : ∀ text, num text text = true) :
    ∀ l : List (String × Json), eqFields num l l = true
  | [] => rfl
  | (k, v) :: l => by rw [eqFields, eqWith_refl hnum v, eqFields_refl hnum l, beq_self_eq_true]; rfl

end

@[simp] theorem same_refl (v : Json) : v.same v = true := eqWith_refl (fun text => by simp [sameNumber]) v

/-! ### Nesting -/

mutual

def depth : Json → Nat
  | .arr items => depthItems items + 1
  | .obj fields => depthFields fields + 1
  | _ => 0

def depthItems : List Json → Nat
  | [] => 0
  | v :: l => max v.depth (depthItems l)

def depthFields : List (String × Json) → Nat
  | [] => 0
  | (_, v) :: l => max v.depth (depthFields l)

end

theorem depthItems_le {l : List Json} {n : Nat} : depthItems l ≤ n ↔ ∀ v ∈ l, v.depth ≤ n := by
  induction l with
  | nil => simp [depthItems]
  | cons v l ih => rw [depthItems, Nat.max_le, ih, List.forall_mem_cons]

end Json

end ArchiveLedger

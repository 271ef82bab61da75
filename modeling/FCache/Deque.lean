import FCache.Machine
import Mathlib.Tactic.Common

/-!
# Double-ended queues, stacks and queues

The reference machines. A deque is the list of its elements from head to tail; a stack is a list
with its top first; a queue is the history of the elements that arrived with the number of those
that left, so that elements leave in the order of their arrival by definition. A deque used at one
end is a stack, and used from tail to head a queue.
-/

variable {α β : Type*}

namespace Deque

inductive Op (α : Type*) where
  | addHead (items : List α)
  | addTail (items : List α)
  | removeHead
  | removeTail
  | getHead
  | getTail
  | size

inductive Answer (α : Type*) where
  | done
  | item (x : Option α)
  | size (n : ℕ)
  deriving DecidableEq

def Answer.map (f : α → β) : Answer α → Answer β
  | done => done
  | item x => item (x.map f)
  | size n => size n

/-- An addition answers the new size. -/
def step (d : List α) : Op α → List α × Answer α
  | .addHead items => (items ++ d, .size (items ++ d).length)
  | .addTail items => (d ++ items, .size (d ++ items).length)
  | .removeHead => (d.tail, .done)
  | .removeTail => (d.dropLast, .done)
  | .getHead => (d, .item d.head?)
  | .getTail => (d, .item d.getLast?)
  | .size => (d, .size d.length)

def machine : Machine (List α) (Op α) (Answer α) where
  init := []
  step d op := some (step d op)

/-- Something is added, and the deque stays shorter than `limit`. -/
def Admits (limit : ℕ) (d : List α) : Op α → Prop
  | .addHead items | .addTail items => 0 < items.length ∧ d.length + items.length < limit
  | _ => d.length < limit

instance (limit : ℕ) (d : List α) (op : Op α) : Decidable (Admits limit d op) := by
  cases op <;> unfold Admits <;> infer_instance

def bounded (limit : ℕ) : Machine (List α) (Op α) (Answer α) := machine.restrict (Admits limit)

theorem bounded_step_eq_some {limit : ℕ} {d d' : List α} {op : Op α} {answer : Answer α} :
    (bounded limit).step d op = some (d', answer) ↔
      Admits limit d op ∧ step d op = (d', answer) := by
  unfold bounded
  rw [Machine.step_restrict_eq_some]
  simp only [machine, Option.some.injEq]

end Deque

namespace Stack

inductive Op (α : Type*) where
  | push (x : α)
  | pop
  | top

def step (s : List α) : Op α → List α × Deque.Answer α
  | .push x => (x :: s, .size (s.length + 1))
  | .pop => (s.tail, .done)
  | .top => (s, .item s.head?)

def machine : Machine (List α) (Op α) (Deque.Answer α) where
  init := []
  step s op := some (step s op)

def Op.toDeque : Op α → Deque.Op α
  | push x => .addHead [x]
  | pop => .removeHead
  | top => .getHead

theorem step_toDeque (s : List α) (op : Op α) : Deque.step s op.toDeque = step s op := by
  cases op <;> rfl

def bounded (limit : ℕ) : Machine (List α) (Op α) (Deque.Answer α) :=
  machine.restrict fun s op => Deque.Admits limit s op.toDeque

/-- A stack is a deque used at its head. -/
theorem runFrom_toDeque {limit : ℕ} {s s' : List α} {ops : List (Op α)}
    {answers : List (Deque.Answer α)} (h : (bounded limit).runFrom s ops = some (s', answers)) :
    (Deque.bounded limit).runFrom s (ops.map Op.toDeque) = some (s', answers) := by
  have hstep : ∀ (d s : List α) (op : Op α) s' answer, d = s →
      (bounded limit).step s op = some (s', answer) →
      ∃ d', (Deque.bounded limit).step d op.toDeque = some (d', id answer) ∧ d' = s' := by
    rintro d s op s' answer rfl hstep
    obtain ⟨hadmits, hstep⟩ := Machine.step_restrict_eq_some.mp hstep
    refine ⟨s', Deque.bounded_step_eq_some.mpr ⟨hadmits, ?_⟩, rfl⟩
    rw [step_toDeque]
    exact Option.some.inj hstep
  obtain ⟨d, hrun, rfl⟩ := Machine.runFrom_refines hstep rfl h
  simpa using hrun

end Stack

structure Queue (α : Type*) where
  arrived : List α
  left : ℕ
  left_le : left ≤ arrived.length

namespace Queue

inductive Op (α : Type*) where
  | push (x : α)
  | pop
  | first
  | last

def empty : Queue α := ⟨[], 0, Nat.le_refl 0⟩

def length (q : Queue α) : ℕ := q.arrived.length - q.left

def push (q : Queue α) (x : α) : Queue α where
  arrived := q.arrived ++ [x]
  left := q.left
  left_le := by
    have := q.left_le
    simp only [List.length_append]
    omega

def pop (q : Queue α) : Queue α :=
  if h : q.left < q.arrived.length then ⟨q.arrived, q.left + 1, h⟩ else q

def step (q : Queue α) : Op α → Queue α × Deque.Answer α
  | .push x => (q.push x, .size (q.push x).length)
  | .pop => (q.pop, .done)
  | .first => (q, .item q.arrived[q.left]?)
  | .last => (q, .item (if q.left < q.arrived.length then q.arrived.getLast? else none))

def machine : Machine (Queue α) (Op α) (Deque.Answer α) where
  init := empty
  step q op := some (step q op)

def Op.toDeque : Op α → Deque.Op α
  | push x => .addTail [x]
  | pop => .removeHead
  | first => .getHead
  | last => .getTail

/-- The elements that have not left, the oldest first. -/
def content (q : Queue α) : List α := q.arrived.drop q.left

theorem content_push (q : Queue α) (x : α) : (q.push x).content = q.content ++ [x] :=
  List.drop_append_of_le_length q.left_le

theorem content_pop (q : Queue α) : q.pop.content = q.content.tail := by
  unfold pop content
  split
  · rw [List.tail_drop]
  · next h =>
    have hnil : q.arrived.drop q.left = [] := List.drop_eq_nil_of_le (by omega)
    simp [hnil]

theorem step_toDeque (q : Queue α) (op : Op α) :
    Deque.step q.content op.toDeque = ((q.step op).1.content, (q.step op).2) := by
  cases op with
  | push x =>
    have hlen : (q.content ++ [x]).length = (q.push x).length := by
      rw [← content_push]
      exact List.length_drop
    simp only [Deque.step, Op.toDeque, step, content_push, hlen]
  | pop => simp only [Deque.step, Op.toDeque, step, content_pop]
  | first => simp [Deque.step, Op.toDeque, step, content, List.head?_drop]
  | last =>
    simp only [Deque.step, Op.toDeque, step, content, List.getLast?_drop]
    by_cases h : q.left < q.arrived.length
    · rw [if_pos h, if_neg (by omega)]
    · rw [if_neg h, if_pos (by omega)]

def bounded (limit : ℕ) : Machine (Queue α) (Op α) (Deque.Answer α) :=
  machine.restrict fun q op => Deque.Admits limit q.content op.toDeque

/-- A queue is a deque filled at its tail and emptied at its head. -/
theorem runFrom_toDeque {limit : ℕ} {q q' : Queue α} {ops : List (Op α)}
    {answers : List (Deque.Answer α)} (h : (bounded limit).runFrom q ops = some (q', answers)) :
    (Deque.bounded limit).runFrom q.content (ops.map Op.toDeque) =
      some (q'.content, answers) := by
  have hstep : ∀ (d : List α) (q : Queue α) (op : Op α) q' answer, d = q.content →
      (bounded limit).step q op = some (q', answer) →
      ∃ d', (Deque.bounded limit).step d op.toDeque = some (d', id answer) ∧ d' = q'.content := by
    rintro d q op q' answer rfl hstep
    obtain ⟨hadmits, hstep⟩ := Machine.step_restrict_eq_some.mp hstep
    refine ⟨q'.content, Deque.bounded_step_eq_some.mpr ⟨hadmits, ?_⟩, rfl⟩
    rw [step_toDeque, Option.some.inj hstep]
    rfl
  obtain ⟨d, hrun, rfl⟩ := Machine.runFrom_refines hstep rfl h
  simpa using hrun

end Queue

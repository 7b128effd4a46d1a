/-!
# Scripts of actions

What an action does when it runs under the lock of its actor: it changes the state, looks at it, and
deals with further actions, which it takes from the pool, submits or gives back.  Actions it holds are
named by their place in the list of held actions, the one taken last in front.
-/

namespace WindowedMetrics

inductive Script (S A : Type) where
  | done
  | edit (change : S → S) (next : Script S A)
  | inspect (next : S → Script S A)
  /-- Take an action from the pool; the answer says whether it is an overflow action. -/
  | acquire (next : Bool → Script S A)
  /-- Fill a held action and submit it.  An overflow action would wait for the lock for ever, and is
  dropped instead. -/
  | submit (place : Nat) (content : A) (next : Script S A)
  /-- Give a held action back unsubmitted. -/
  | discard (place : Nat) (next : Script S A)

/-- Actions `A` on states `S`. -/
class Action (S : outParam Type) (A : Type) where
  /-- What a slot holds before its first use. -/
  blank : A
  /-- What running an action does. -/
  script : A → Script S A
  /-- What running an action leaves in its slot. -/
  spent : A → A

end WindowedMetrics

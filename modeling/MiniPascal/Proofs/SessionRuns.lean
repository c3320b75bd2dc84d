import MiniPascal.Session

/-!
# Playing sessions

Sessions are put together by letting one go on where another ends.  Playing what was put together
is playing the parts, each one in the world that the one before it left behind.
-/

namespace MiniPascal

namespace Session

variable {α β γ : Type}

theorem bind_done (s : Session α) : s.bind .done = s := by
  induction s with
  | done a => rfl
  | print text next ih => exact congrArg (Session.print text) ih
  | warn text next ih => exact congrArg (Session.warn text) ih
  | isPresent path next ih => exact congrArg (Session.isPresent path) (funext ih)
  | read path next ih => exact congrArg (Session.read path) (funext ih)
  | write path text next ih => exact congrArg (Session.write path text) (funext ih)
  | makeParent path next ih => exact congrArg (Session.makeParent path) (funext ih)
  | entryNames path next ih => exact congrArg (Session.entryNames path) (funext ih)
  | lap source next ih => exact congrArg (Session.lap source) (funext ih)

theorem bind_bind (s : Session α) (f : α → Session β) (g : β → Session γ) :
    (s.bind f).bind g = s.bind fun a => (f a).bind g := by
  induction s with
  | done a => rfl
  | print text next ih => exact congrArg (Session.print text) ih
  | warn text next ih => exact congrArg (Session.warn text) ih
  | isPresent path next ih => exact congrArg (Session.isPresent path) (funext ih)
  | read path next ih => exact congrArg (Session.read path) (funext ih)
  | write path text next ih => exact congrArg (Session.write path text) (funext ih)
  | makeParent path next ih => exact congrArg (Session.makeParent path) (funext ih)
  | entryNames path next ih => exact congrArg (Session.entryNames path) (funext ih)
  | lap source next ih => exact congrArg (Session.lap source) (funext ih)

instance : LawfulMonad Session :=
  LawfulMonad.mk' Session (fun s => bind_done s) (fun _ _ => rfl) bind_bind

@[simp]
theorem run_pure (a : α) (w : World) : (pure a : Session α).run w = (a, w) :=
  rfl

/-- The second part is played in the world that the first part leaves behind. -/
@[simp]
theorem run_bind (s : Session α) (f : α → Session β) (w : World) :
    (s >>= f).run w = (f (s.run w).1).run (s.run w).2 := by
  show (s.bind f).run w = _
  induction s generalizing w with
  | done a => rfl
  | print text next ih => exact ih _
  | warn text next ih => exact ih _
  | isPresent path next ih => exact ih _ _
  | read path next ih => exact ih _ _
  | write path text next ih => exact ih _ _
  | makeParent path next ih => exact ih _ _
  | entryNames path next ih => exact ih _ _
  | lap source next ih => exact ih _ _

@[simp]
theorem run_map (f : α → β) (s : Session α) (w : World) :
    (f <$> s).run w = (f (s.run w).1, (s.run w).2) := by
  rw [map_eq_pure_bind, run_bind, run_pure]

end Session

end MiniPascal

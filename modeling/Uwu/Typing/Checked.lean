import Uwu.Diagnostic.Basic

/-! Results that come with the mistakes found on the way to them. -/

namespace Uwu.Typing

structure Checked (α : Type) where
  value : α
  mistakes : List Diagnostic

namespace Checked

instance : Monad Checked where
  pure a := ⟨a, []⟩
  bind c f := ⟨(f c.value).value, c.mistakes ++ (f c.value).mistakes⟩

variable {α β : Type}

@[simp]
theorem value_pure (a : α) : (pure a : Checked α).value = a := rfl

@[simp]
theorem mistakes_pure (a : α) : (pure a : Checked α).mistakes = [] := rfl

@[simp]
theorem value_bind (c : Checked α) (f : α → Checked β) : (c >>= f).value = (f c.value).value := rfl

@[simp]
theorem mistakes_bind (c : Checked α) (f : α → Checked β) :
    (c >>= f).mistakes = c.mistakes ++ (f c.value).mistakes := rfl

end Checked

def report (cause : Cause) (span : Span) : Checked Unit :=
  ⟨(), [⟨cause, span⟩]⟩

@[simp]
theorem mistakes_report (cause : Cause) (span : Span) :
    (report cause span).mistakes = [⟨cause, span⟩] := rfl

end Uwu.Typing

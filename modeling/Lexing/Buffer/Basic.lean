import Lexing.Buffer.Window
import Lexing.Error
import Lexing.Operation

/-!
# Buffers

A buffer is a source and the window through which the source is read. A buffer operation fails or
succeeds and leaves a buffer either way, so what a failure does to the buffer can be seen.

Models `LexBuffer` and its `with_config`, from the module `buffer` of `lexkit_core`.
-/

set_option autoImplicit false

namespace Lexing

/-- A source read through a window. -/
structure Buffer (σ : Type) where
  window : Window
  source : σ
  deriving DecidableEq, Repr

abbrev BufferM (σ : Type) : Type → Type := Operation LexError (Buffer σ)

namespace Buffer

variable {σ : Type}

/-- A buffer over a source, where requests for `memory` bytes or more are refused. The parameters
are checked before the storage is asked for. -/
def openWith (config : Config) (memory : Nat) (source : σ) : Except LexError (Buffer σ) :=
  match config.validate with
  | .error error => .error (.config error)
  | .ok () =>
    let window := Window.empty config.initial config.limit memory
    if window.grants config.initial then .ok ⟨window, source⟩
    else .error (.allocationFailure config.initial)

end Buffer

end Lexing

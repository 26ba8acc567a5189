import MailQueue.Config
import MailQueue.Toml.Reader

/-!
# Settings from a text

`Config.ofToml` reads settings that are written as a settings text. Two forms are accepted besides
those of `Config.ofValue`: a mode or strategy may be the only key of a table, over something empty,
and a list of the settings of the group `concat` may be too long.
-/

namespace MailQueue

namespace Toml

/-- A name written as the only key of a table. -/
def unwrapName : Value → Value
  | .object [(s, .object [])] => .text s
  | .object [(s, .list [])] => .text s
  | v => v

/-- The fields of a group written as a list, without those too many. -/
def cutGroup (fields : List String) : Value → Value
  | .list items => .list (items.take fields.length)
  | v => v

/-- One setting in the form of `Config.ofValue`. -/
def setting (e : String × Value) : String × Value :=
  if e.1 = "mode" ∨ e.1 = "strategy" then (e.1, unwrapName e.2)
  else if e.1 = "concat" then (e.1, cutGroup Concat.keys e.2)
  else e

end Toml

/-- The settings of a text. -/
def Config.ofToml (text : String) : Except ConfigError Config :=
  match Toml.parse text with
  | some (.object es) =>
    match Config.ofValue (.object (es.map Toml.setting)) with
    | .ok c => .ok c
    | .error _ => .error .unreadable
  | _ => .error .unreadable

end MailQueue

import RuntimeTrace.Activity.Decoding

/-!
# Correlation keys

Events of one activity are recognised by a key.  For a path the key is its text
without the process, so that two producers which differ in whether they fold in
their process id still agree; for any other identifier it is the GUID text.

Only a path has a parent, and the parent's key is the key of the shortened path.
-/

namespace RuntimeTrace
namespace ActivityId

/-- The key of the activity itself. -/
def key (id : ActivityId) : String :=
  match id.path? with
  | some path => path.key
  | none => id.text

/-- The key of the enclosing activity, where there is one. -/
def parentKey? (id : ActivityId) : Option String :=
  match id.path? with
  | some path => path.parent?.map ActivityPath.key
  | none => none

end ActivityId
end RuntimeTrace

/-!
# Qualified names

A rule is named by its grammar and its own name with a dot between them; grammar names may hold dots
themselves, so a qualified name is split at the last one.
-/

namespace PegFront

def qualify (grammar rule : String) : String :=
  if grammar.isEmpty then rule else grammar ++ "." ++ rule

/-- What stands before and after the last dot. -/
def splitQualified? (name : String) : Option (String × String) :=
  let (rule, rest) := name.toList.reverse.span (· != '.')
  match rest with
  | [] => none
  | _ :: grammar => some (String.ofList grammar.reverse, String.ofList rule.reverse)

end PegFront

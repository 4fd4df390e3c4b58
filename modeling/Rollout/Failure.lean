/-!
What can go wrong, as causes.  A failed visit wraps the cause of its failure, to any depth, and `Failure.chain` unwraps
it again; each cause has one line of text (`message`), and some come with advice on what to do about them
(`suggestion`).  The words of the messages stand here.

The chain lists the texts of the causes behind a failure, outermost first: a failed visit has its cause behind it, and
an input or output error its bare text; `source?` is the first of them.  A configuration error that says there is no
file at all has no advice, for there is nothing to validate yet, and it is known by its words alone.
-/
namespace Rollout

inductive Failure where
  | unknownDependency (service dependency : String)
  | cyclicDependency (path : List String)
  | visitFailed (service : String) (cause : Failure)
  | cancelled
  | serviceNotFound (name : String)
  | config (text : String)
  | parse (text : String)
  | io (text : String)
  /-- A cause that is only a text, as a visitor may report one. -/
  | plain (text : String)
deriving DecidableEq, Repr

namespace Failure

def message : Failure → String
  | unknownDependency service dependency =>
    "Service '" ++ service ++ "' depends on undefined service '" ++ dependency ++ "'"
  | cyclicDependency path => "Circular dependency detected: " ++ " -> ".intercalate path
  | visitFailed service cause => "Service '" ++ service ++ "' failed: " ++ cause.message
  | cancelled => "Operation cancelled"
  | serviceNotFound name => "Service not found: " ++ name
  | config text => "Configuration error: " ++ text
  | parse text => "Parse error: " ++ text
  | io text => "IO error: " ++ text
  | plain text => text

def occursIn (part : List Char) : List Char → Bool
  | [] => part.isEmpty
  | c :: rest => part.isPrefixOf (c :: rest) || occursIn part rest

/-- The words by which a configuration error says that there is no file at all.  Such an error comes without advice:
there is nothing to validate yet. -/
def missingFile : String := "Could not find"

def suggestion : Failure → Option String
  | unknownDependency service dependency =>
    some ("Service '" ++ service ++ "' lists '" ++ dependency ++ "' in depends_on, but no such service is declared. " ++
      "Check for typos or a missing profile.")
  | cyclicDependency path =>
    some ("Services cannot depend on each other in a cycle. Review the depends_on fields for: " ++
      ", ".intercalate path)
  | visitFailed service _ =>
    some ("Services depending on '" ++ service ++ "' were not processed. Fix the failure and re-run.")
  | serviceNotFound _ => some "Run `fed-order check` to list the services in your config."
  | config text =>
    if occursIn missingFile.toList text.toList then none else some "Validate your config with: fed-order check"
  | parse _ => some "Validate your config with: fed-order check"
  | cancelled => none
  | io _ => none
  | plain _ => none

def messageWithSuggestion (f : Failure) : String :=
  match f.suggestion with
  | some advice => f.message ++ "\n\nHint: " ++ advice
  | none => f.message

def isCancelled : Failure → Bool
  | cancelled => true
  | _ => false

def failedService? : Failure → Option String
  | visitFailed service _ => some service
  | _ => none

/-- The texts of the causes behind a failure, outermost first.  A failed visit has its cause behind it, and an
input or output error its bare text. -/
def chain : Failure → List String
  | visitFailed _ cause => cause.message :: cause.chain
  | io text => [text]
  | _ => []

def source? (f : Failure) : Option String := f.chain.head?

/-! ## Diagnostic metadata -/

def code : Failure → Option String
  | unknownDependency _ _ => some "fed::dependency::unknown"
  | cyclicDependency _ => some "fed::dependency::circular"
  | visitFailed _ _ => some "fed::service::visit_failed"
  | cancelled => some "fed::operation::cancelled"
  | serviceNotFound _ => some "fed::service::not_found"
  | _ => none

def help : Failure → Option String
  | unknownDependency service dependency =>
    some ("Declare '" ++ dependency ++ "' under services: or remove it from the depends_on of '" ++ service ++ "'")
  | cyclicDependency _ =>
    some "Services cannot depend on each other in a cycle. Review the depends_on fields"
  | serviceNotFound _ => some "Check the service names declared in your service-federation.yaml"
  | _ => none

end Failure

end Rollout

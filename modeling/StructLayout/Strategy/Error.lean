import StructLayout.Context
import StructLayout.Tag.Annotation

/-! What can go wrong when strategies are chosen and applied. -/

namespace StructLayout

inductive StrategyError where
  | context (cause : ContextError)
  | unknownStrategy (name : String)
  | nestedGroup (name : String)
  | malformedTag (field tag : String) (reason : AnnotationError)
  | inconsistentGroup (group : GroupKey) (field found : String)
  | overlappingGroups (field : String) (first second : GroupKey)
  deriving DecidableEq, Repr

def StrategyError.message : StrategyError → String
  | .context cause => cause.message
  | .unknownStrategy name => "strategy " ++ Text.quoted name ++ " wasn't found"
  | .nestedGroup name => "strategy " ++ Text.quoted name ++ " can't be used inside a tag group"
  | .malformedTag field tag reason =>
    "tag " ++ Text.quoted tag ++ " of field " ++ Text.quoted field ++ " can't be parsed: "
      ++ reason.message
  | .inconsistentGroup group field found =>
    "inconsistent strategies list " ++ Text.quoted found ++ " for field " ++ Text.quoted field
      ++ " in group " ++ group.render
  | .overlappingGroups field first second =>
    "field " ++ Text.quoted field ++ " is claimed by both group " ++ first.render ++ " and group "
      ++ second.render

end StructLayout

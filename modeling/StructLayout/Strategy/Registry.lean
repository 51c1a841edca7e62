import StructLayout.Platform
import StructLayout.Strategy.Error
import StructLayout.Strategy.Transform
import StructLayout.Text.Numeral

/-! The names of the strategies and what they stand for on a platform. -/

namespace StructLayout

/-- Replays the annotations of the fields. -/
def replayName : String := "process_tag_group"

/-- Names that read or write annotations, and so are never recorded in one. -/
def isTagStrategy (name : String) : Bool :=
  name == replayName || name == "remove_tag_group" ||
    "add_tag_group_".toList.isPrefixOf name.toList

/-- Strategies for a platform, and the group that tags are written for. -/
structure Registry where
  platform : Platform
  tagGroup : String
  deriving DecidableEq, Repr

namespace Registry

/-- The names without a number that stand for a transform. -/
def fixed (r : Registry) (recorded : List String) : List (String × Transform) :=
  let system := r.platform.sizes.maxAlign
  let line := r.platform.cacheLine
  let tagging := fun mode => Transform.tagging { mode, names := recorded, group := r.tagGroup }
  [("memory_pack", .pack),
   ("memory_unpack", .unpack),
   ("explicit_paddings_system_alignment", .padGaps (some (max system 1))),
   ("explicit_paddings_type_natural", .padGaps none),
   ("false_sharing_cpu_l1", .falseSharing (line 1)),
   ("false_sharing_cpu_l2", .falseSharing (line 2)),
   ("false_sharing_cpu_l3", .falseSharing (line 3)),
   ("cache_rounding_cpu_l1", .cacheRounding (line 1)),
   ("cache_rounding_cpu_l2", .cacheRounding (line 2)),
   ("cache_rounding_cpu_l3", .cacheRounding (line 3)),
   ("separate_padding_system_alignment_top", .separate system true),
   ("separate_padding_system_alignment_bottom", .separate system false),
   ("separate_padding_cpu_l1_top", .separate (line 1) true),
   ("separate_padding_cpu_l2_top", .separate (line 2) true),
   ("separate_padding_cpu_l3_top", .separate (line 3) true),
   ("separate_padding_cpu_l1_bottom", .separate (line 1) false),
   ("separate_padding_cpu_l2_bottom", .separate (line 2) false),
   ("separate_padding_cpu_l3_bottom", .separate (line 3) false),
   ("add_tag_group_soft", tagging .soft),
   ("add_tag_group_force", tagging .force),
   ("add_tag_group_discrete", tagging .discrete),
   ("add_tag_group_force_discrete", tagging .forceDiscrete),
   ("remove_tag_group", tagging .remove),
   ("fields_annotate_doc", .annotateFields .doc),
   ("fields_annotate_comment", .annotateFields .comment),
   ("struct_annotate_doc", .annotate .doc),
   ("struct_annotate_comment", .annotate .comment),
   ("struct_stamp_doc", .markCurated .doc),
   ("struct_stamp_comment", .markCurated .comment),
   ("name_lexicographical_ascending", .sortBy .nameLexicographical true),
   ("name_lexicographical_descending", .sortBy .nameLexicographical false),
   ("type_lexicographical_ascending", .sortBy .typeLexicographical true),
   ("type_lexicographical_descending", .sortBy .typeLexicographical false),
   ("name_length_ascending", .sortBy .nameLength true),
   ("name_length_descending", .sortBy .nameLength false),
   ("type_length_ascending", .sortBy .typeLength true),
   ("type_length_descending", .sortBy .typeLength false),
   ("embedded_ascending", .sortBy .embedded true),
   ("embedded_descending", .sortBy .embedded false),
   ("exported_ascending", .sortBy .exported true),
   ("exported_descending", .sortBy .exported false),
   ("filter_pads", .filter .pads),
   ("filter_embedded", .filter .embedded),
   ("filter_not_embedded", .filter .notEmbedded),
   ("filter_exported", .filter .exported),
   ("filter_not_exported", .filter .notExported),
   ("ignore", .ignore),
   ("void", .void)]

/-- A run of digits worth less than 2^64. -/
def readBytes (cs : List Char) : Option Nat :=
  if cs.all Char.isDigit then Text.readNat 10 cs else none

/-- What follows `start` in a text that begins with it. -/
def behind? (start : String) (cs : List Char) : Option (List Char) :=
  if start.toList.isPrefixOf cs then some (cs.drop start.toList.length) else none

/-- The names that end in a number of bytes, or hold one. -/
def sized? (name : String) : Option Transform :=
  let cs := name.toList
  match behind? "false_sharing_bytes_" cs with
  | some digits => (readBytes digits).map .falseSharing
  | none =>
    match behind? "cache_rounding_bytes_" cs with
    | some digits => (readBytes digits).map .cacheRounding
    | none =>
      match behind? "separate_padding_bytes_" cs with
      | some rest =>
        let digits := rest.takeWhile Char.isDigit
        let side := rest.dropWhile Char.isDigit
        if side = "_top".toList then (readBytes digits).map (.separate · true)
        else if side = "_bottom".toList then (readBytes digits).map (.separate · false)
        else none
      | none => none

/-- The transform of a name, in a pipe whose other names are to be recorded. -/
def transform (r : Registry) (recorded : List String) (name : String) :
    Except StrategyError Transform :=
  match (sized? name).or ((r.fixed recorded).lookup name) with
  | some t => .ok t
  | none => .error (.unknownStrategy name)

/-- The names of a list that an annotation records. -/
def recorded (names : List String) : List String :=
  names.filter fun name => !isTagStrategy name

/-- The transforms of a list of names, or the first name that stands for none. -/
def transforms (r : Registry) (names : List String) : Except StrategyError (List Transform) :=
  names.mapM (r.transform (recorded names))

/-- All names without a number. -/
def fixedNames : List String :=
  replayName :: (fixed ⟨⟨"", "", ⟨1, 1⟩, []⟩, ""⟩ []).map (·.1)

end Registry

end StructLayout

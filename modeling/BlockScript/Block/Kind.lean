-- The kinds of blocks that the compiler knows: value blocks, which stand for
-- an expression, and action blocks, which stand for statements. A kind is
-- found by its tag; a tag outside both vocabularies names no kind.
import BlockScript.Json

namespace BlockScript

/-! ## Value blocks -/

/-- A block that makes a value. -/
inductive ValueKind where
  | number
  | angle
  | text
  | yes
  | no
  | getPictures
  | getSounds
  | calcBasic
  | booleanBasicOperator
  | booleanAndOr
  | booleanAnd
  | booleanOr
  | booleanNot
  | quotientAndMod
  | calcOperation
  | calcRand
  | lengthOfString
  | combineSomething
  | charAt
  | substring
  | indexOfString
  | replaceString
  | changeStringCase
  | getVariable
  | valueOfIndexFromList
  | lengthOfList
  | isIncludedInList
  | coordinateMouse
  | coordinateObject
  | distanceSomething
  | reachSomething
  | isClicked
  | isPressSomeKey
  | getDate
  | calcTimerValue
  | getCanvasInputValue
  | getSoundVolume
  | getFuncVariable
deriving DecidableEq, Repr

namespace ValueKind

def tag : ValueKind → String
  | .number => "number"
  | .angle => "angle"
  | .text => "text"
  | .yes => "True"
  | .no => "False"
  | .getPictures => "get_pictures"
  | .getSounds => "get_sounds"
  | .calcBasic => "calc_basic"
  | .booleanBasicOperator => "boolean_basic_operator"
  | .booleanAndOr => "boolean_and_or"
  | .booleanAnd => "boolean_and"
  | .booleanOr => "boolean_or"
  | .booleanNot => "boolean_not"
  | .quotientAndMod => "quotient_and_mod"
  | .calcOperation => "calc_operation"
  | .calcRand => "calc_rand"
  | .lengthOfString => "length_of_string"
  | .combineSomething => "combine_something"
  | .charAt => "char_at"
  | .substring => "substring"
  | .indexOfString => "index_of_string"
  | .replaceString => "replace_string"
  | .changeStringCase => "change_string_case"
  | .getVariable => "get_variable"
  | .valueOfIndexFromList => "value_of_index_from_list"
  | .lengthOfList => "length_of_list"
  | .isIncludedInList => "is_included_in_list"
  | .coordinateMouse => "coordinate_mouse"
  | .coordinateObject => "coordinate_object"
  | .distanceSomething => "distance_something"
  | .reachSomething => "reach_something"
  | .isClicked => "is_clicked"
  | .isPressSomeKey => "is_press_some_key"
  | .getDate => "get_date"
  | .calcTimerValue => "calc_timer_value"
  | .getCanvasInputValue => "get_canvas_input_value"
  | .getSoundVolume => "get_sound_volume"
  | .getFuncVariable => "get_func_variable"

/-- Every kind, once. -/
def all : List ValueKind :=
  [.number, .angle, .text, .yes, .no, .getPictures, .getSounds, .calcBasic,
   .booleanBasicOperator, .booleanAndOr, .booleanAnd, .booleanOr, .booleanNot, .quotientAndMod,
   .calcOperation, .calcRand, .lengthOfString, .combineSomething, .charAt, .substring,
   .indexOfString, .replaceString, .changeStringCase, .getVariable, .valueOfIndexFromList,
   .lengthOfList, .isIncludedInList, .coordinateMouse, .coordinateObject, .distanceSomething,
   .reachSomething, .isClicked, .isPressSomeKey, .getDate, .calcTimerValue, .getCanvasInputValue,
   .getSoundVolume, .getFuncVariable]

/-- The kind with the given tag. -/
def ofTag? (t : Text) : Option ValueKind := all.find? fun k => Text.ofString k.tag = t

end ValueKind

/-! ## Action blocks -/

/-- A block that does something. -/
inductive ActionKind where
  | moveDirection
  | moveX
  | moveY
  | locateX
  | locateY
  | locateXy
  | locateXyTime
  | moveXyTime
  | locate
  | locateObjectTime
  | rotateRelative
  | directionRelative
  | rotateAbsolute
  | directionAbsolute
  | rotateByTime
  | directionRelativeDuration
  | seeAngleObject
  | bounceWall
  | show
  | hide
  | dialog
  | dialogTime
  | removeDialog
  | changeToSomeShape
  | changeToNextShape
  | addEffectAmount
  | changeEffectAmount
  | eraseAllEffects
  | changeScaleSize
  | setScaleSize
  | changeObjectIndex
  | soundSomethingWithBlock
  | soundSomethingSecondWithBlock
  | soundSomethingWaitWithBlock
  | soundSomethingSecondWaitWithBlock
  | soundFromToAndWait
  | soundVolumeChange
  | soundVolumeSet
  | soundSilentAll
  | waitSecond
  | waitUntilTrue
  | ifOnly
  | ifElse
  | repeatBasic
  | repeatInf
  | repeatWhileTrue
  | stopRepeat
  | continueRepeat
  | stopObject
  | restartProject
  | createClone
  | deleteClone
  | removeAllClones
  | messageCast
  | messageCastWait
  | startScene
  | startNeighborScene
  | setVariable
  | changeVariable
  | showVariable
  | hideVariable
  | addValueToList
  | removeValueFromList
  | insertValueToList
  | changeValueListIndex
  | askAndWait
  | setFuncVariable
deriving DecidableEq, Repr

namespace ActionKind

def tag : ActionKind → String
  | .moveDirection => "move_direction"
  | .moveX => "move_x"
  | .moveY => "move_y"
  | .locateX => "locate_x"
  | .locateY => "locate_y"
  | .locateXy => "locate_xy"
  | .locateXyTime => "locate_xy_time"
  | .moveXyTime => "move_xy_time"
  | .locate => "locate"
  | .locateObjectTime => "locate_object_time"
  | .rotateRelative => "rotate_relative"
  | .directionRelative => "direction_relative"
  | .rotateAbsolute => "rotate_absolute"
  | .directionAbsolute => "direction_absolute"
  | .rotateByTime => "rotate_by_time"
  | .directionRelativeDuration => "direction_relative_duration"
  | .seeAngleObject => "see_angle_object"
  | .bounceWall => "bounce_wall"
  | .show => "show"
  | .hide => "hide"
  | .dialog => "dialog"
  | .dialogTime => "dialog_time"
  | .removeDialog => "remove_dialog"
  | .changeToSomeShape => "change_to_some_shape"
  | .changeToNextShape => "change_to_next_shape"
  | .addEffectAmount => "add_effect_amount"
  | .changeEffectAmount => "change_effect_amount"
  | .eraseAllEffects => "erase_all_effects"
  | .changeScaleSize => "change_scale_size"
  | .setScaleSize => "set_scale_size"
  | .changeObjectIndex => "change_object_index"
  | .soundSomethingWithBlock => "sound_something_with_block"
  | .soundSomethingSecondWithBlock => "sound_something_second_with_block"
  | .soundSomethingWaitWithBlock => "sound_something_wait_with_block"
  | .soundSomethingSecondWaitWithBlock => "sound_something_second_wait_with_block"
  | .soundFromToAndWait => "sound_from_to_and_wait"
  | .soundVolumeChange => "sound_volume_change"
  | .soundVolumeSet => "sound_volume_set"
  | .soundSilentAll => "sound_silent_all"
  | .waitSecond => "wait_second"
  | .waitUntilTrue => "wait_until_true"
  | .ifOnly => "_if"
  | .ifElse => "if_else"
  | .repeatBasic => "repeat_basic"
  | .repeatInf => "repeat_inf"
  | .repeatWhileTrue => "repeat_while_true"
  | .stopRepeat => "stop_repeat"
  | .continueRepeat => "continue_repeat"
  | .stopObject => "stop_object"
  | .restartProject => "restart_project"
  | .createClone => "create_clone"
  | .deleteClone => "delete_clone"
  | .removeAllClones => "remove_all_clones"
  | .messageCast => "message_cast"
  | .messageCastWait => "message_cast_wait"
  | .startScene => "start_scene"
  | .startNeighborScene => "start_neighbor_scene"
  | .setVariable => "set_variable"
  | .changeVariable => "change_variable"
  | .showVariable => "show_variable"
  | .hideVariable => "hide_variable"
  | .addValueToList => "add_value_to_list"
  | .removeValueFromList => "remove_value_from_list"
  | .insertValueToList => "insert_value_to_list"
  | .changeValueListIndex => "change_value_list_index"
  | .askAndWait => "ask_and_wait"
  | .setFuncVariable => "set_func_variable"

/-- Every kind, once. -/
def all : List ActionKind :=
  [.moveDirection, .moveX, .moveY, .locateX, .locateY, .locateXy, .locateXyTime, .moveXyTime,
   .locate, .locateObjectTime, .rotateRelative, .directionRelative, .rotateAbsolute,
   .directionAbsolute, .rotateByTime, .directionRelativeDuration, .seeAngleObject, .bounceWall,
   .show, .hide, .dialog, .dialogTime, .removeDialog, .changeToSomeShape, .changeToNextShape,
   .addEffectAmount, .changeEffectAmount, .eraseAllEffects, .changeScaleSize, .setScaleSize,
   .changeObjectIndex, .soundSomethingWithBlock, .soundSomethingSecondWithBlock,
   .soundSomethingWaitWithBlock, .soundSomethingSecondWaitWithBlock, .soundFromToAndWait,
   .soundVolumeChange, .soundVolumeSet, .soundSilentAll, .waitSecond, .waitUntilTrue, .ifOnly,
   .ifElse, .repeatBasic, .repeatInf, .repeatWhileTrue, .stopRepeat, .continueRepeat,
   .stopObject, .restartProject, .createClone, .deleteClone, .removeAllClones, .messageCast,
   .messageCastWait, .startScene, .startNeighborScene, .setVariable, .changeVariable,
   .showVariable, .hideVariable, .addValueToList, .removeValueFromList, .insertValueToList,
   .changeValueListIndex, .askAndWait, .setFuncVariable]

/-- The kind with the given tag. -/
def ofTag? (t : Text) : Option ActionKind := all.find? fun k => Text.ofString k.tag = t

/-- Whether the action hands control back to the runtime on its own. -/
def suspends : ActionKind → Bool
  | .waitSecond | .waitUntilTrue | .locateXyTime | .moveXyTime | .locateObjectTime | .rotateByTime
  | .directionRelativeDuration | .dialogTime | .soundSomethingWaitWithBlock
  | .soundSomethingSecondWaitWithBlock | .soundFromToAndWait | .askAndWait
  | .messageCastWait => true
  | _ => false

/-- Whether the action gives a variable a value. -/
def assigns : ActionKind → Bool
  | .setFuncVariable | .setVariable | .changeVariable => true
  | _ => false

end ActionKind

end BlockScript

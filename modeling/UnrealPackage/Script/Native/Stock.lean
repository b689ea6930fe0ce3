import UnrealPackage.Script.Native
/-!
# The stock native functions

The natives that every client of the engine ships with, by ascending index.
-/

namespace UnrealPackage.Script

/-- The stock natives: index, name, whether written before the operand, precedence, whether an
operator. -/
def stockNatives : List NativeFunction := [
  ⟨112, "$", false, 40, true⟩,
  ⟨113, "GotoState", false, 0, false⟩,
  ⟨114, "==", false, 24, true⟩,
  ⟨115, "<", false, 24, true⟩,
  ⟨116, ">", false, 24, true⟩,
  ⟨117, "Enable", false, 0, false⟩,
  ⟨118, "Disable", false, 0, false⟩,
  ⟨119, "!=", false, 26, true⟩,
  ⟨120, "<=", false, 24, true⟩,
  ⟨121, ">=", false, 24, true⟩,
  ⟨122, "==", false, 24, true⟩,
  ⟨123, "!=", false, 26, true⟩,
  ⟨124, "~=", false, 24, true⟩,
  ⟨125, "Len", false, 0, false⟩,
  ⟨126, "InStr", false, 0, false⟩,
  ⟨127, "Mid", false, 0, false⟩,
  ⟨128, "Left", false, 0, false⟩,
  ⟨129, "!", true, 0, true⟩,
  ⟨130, "&&", false, 30, true⟩,
  ⟨131, "^^", false, 30, true⟩,
  ⟨132, "||", false, 32, true⟩,
  ⟨133, "*=", false, 34, true⟩,
  ⟨134, "/=", false, 34, true⟩,
  ⟨135, "+=", false, 34, true⟩,
  ⟨136, "-=", false, 34, true⟩,
  ⟨137, "++", true, 0, true⟩,
  ⟨138, "--", true, 0, true⟩,
  ⟨139, "++", false, 0, true⟩,
  ⟨140, "--", false, 0, true⟩,
  ⟨141, "~", true, 0, true⟩,
  ⟨142, "==", false, 24, true⟩,
  ⟨143, "-", true, 0, true⟩,
  ⟨144, "*", false, 16, true⟩,
  ⟨145, "/", false, 16, true⟩,
  ⟨146, "+", false, 20, true⟩,
  ⟨147, "-", false, 20, true⟩,
  ⟨148, "<<", false, 22, true⟩,
  ⟨149, ">>", false, 22, true⟩,
  ⟨150, "<", false, 24, true⟩,
  ⟨151, ">", false, 24, true⟩,
  ⟨152, "<=", false, 24, true⟩,
  ⟨153, ">=", false, 24, true⟩,
  ⟨154, "==", false, 24, true⟩,
  ⟨155, "!=", false, 26, true⟩,
  ⟨156, "&", false, 28, true⟩,
  ⟨157, "^", false, 28, true⟩,
  ⟨158, "|", false, 28, true⟩,
  ⟨159, "*=", false, 34, true⟩,
  ⟨160, "/=", false, 34, true⟩,
  ⟨161, "+=", false, 34, true⟩,
  ⟨162, "-=", false, 34, true⟩,
  ⟨163, "++", true, 0, true⟩,
  ⟨164, "--", true, 0, true⟩,
  ⟨165, "++", false, 0, true⟩,
  ⟨166, "--", false, 0, true⟩,
  ⟨167, "Rand", false, 0, false⟩,
  ⟨168, "@", false, 40, true⟩,
  ⟨169, "-", true, 0, true⟩,
  ⟨170, "**", false, 12, true⟩,
  ⟨171, "*", false, 16, true⟩,
  ⟨172, "/", false, 16, true⟩,
  ⟨173, "%", false, 18, true⟩,
  ⟨174, "+", false, 20, true⟩,
  ⟨175, "-", false, 20, true⟩,
  ⟨176, "<", false, 24, true⟩,
  ⟨177, ">", false, 24, true⟩,
  ⟨178, "<=", false, 24, true⟩,
  ⟨179, ">=", false, 24, true⟩,
  ⟨180, "==", false, 24, true⟩,
  ⟨181, "!=", false, 26, true⟩,
  ⟨182, "*=", false, 34, true⟩,
  ⟨183, "/=", false, 34, true⟩,
  ⟨184, "+=", false, 34, true⟩,
  ⟨185, "-=", false, 34, true⟩,
  ⟨186, "Abs", false, 0, false⟩,
  ⟨187, "Sin", false, 0, false⟩,
  ⟨188, "Cos", false, 0, false⟩,
  ⟨189, "Tan", false, 0, false⟩,
  ⟨190, "Atan", false, 0, false⟩,
  ⟨191, "Exp", false, 0, false⟩,
  ⟨192, "Loge", false, 0, false⟩,
  ⟨193, "Sqrt", false, 0, false⟩,
  ⟨194, "Square", false, 0, false⟩,
  ⟨195, "FRand", false, 0, false⟩,
  ⟨196, ">>>", false, 22, true⟩,
  ⟨197, "*", false, 16, true⟩,
  ⟨203, "!=", false, 26, true⟩,
  ⟨210, "~=", false, 24, true⟩,
  ⟨211, "-", true, 0, true⟩,
  ⟨212, "*", false, 16, true⟩,
  ⟨213, "*", false, 16, true⟩,
  ⟨214, "/", false, 16, true⟩,
  ⟨215, "+", false, 20, true⟩,
  ⟨216, "-", false, 20, true⟩,
  ⟨217, "==", false, 24, true⟩,
  ⟨218, "!=", false, 26, true⟩,
  ⟨219, "Dot", false, 16, true⟩,
  ⟨220, "Cross", false, 16, true⟩,
  ⟨221, "*=", false, 34, true⟩,
  ⟨222, "/=", false, 34, true⟩,
  ⟨223, "+=", false, 34, true⟩,
  ⟨224, "-=", false, 34, true⟩,
  ⟨225, "VSize", false, 0, false⟩,
  ⟨226, "Normal", false, 0, false⟩,
  ⟨227, "Invert", false, 0, false⟩,
  ⟨229, "GetAxes", false, 0, false⟩,
  ⟨230, "GetUnAxes", false, 0, false⟩,
  ⟨231, "Log", false, 0, false⟩,
  ⟨232, "Warn", false, 0, false⟩,
  ⟨233, "Error", false, 0, false⟩,
  ⟨234, "Right", false, 0, false⟩,
  ⟨235, "Caps", false, 0, false⟩,
  ⟨236, "Chr", false, 0, false⟩,
  ⟨237, "Asc", false, 0, false⟩,
  ⟨238, "Substitute", false, 0, false⟩,
  ⟨242, "==", false, 24, true⟩,
  ⟨243, "!=", false, 26, true⟩,
  ⟨244, "FMin", false, 0, false⟩,
  ⟨245, "FMax", false, 0, false⟩,
  ⟨246, "FClamp", false, 0, false⟩,
  ⟨247, "Lerp", false, 0, false⟩,
  ⟨248, "Smerp", false, 0, false⟩,
  ⟨249, "Min", false, 0, false⟩,
  ⟨250, "Max", false, 0, false⟩,
  ⟨251, "Clamp", false, 0, false⟩,
  ⟨252, "VRand", false, 0, false⟩,
  ⟨254, "==", false, 24, true⟩,
  ⟨255, "!=", false, 26, true⟩,
  ⟨256, "Sleep", false, 0, false⟩,
  ⟨258, "ClassIsChildOf", false, 0, false⟩,
  ⟨259, "PlayAnim", false, 0, false⟩,
  ⟨260, "LoopAnim", false, 0, false⟩,
  ⟨261, "FinishAnim", false, 0, false⟩,
  ⟨262, "SetCollision", false, 0, false⟩,
  ⟨263, "HasAnim", false, 0, false⟩,
  ⟨264, "PlaySound", false, 0, false⟩,
  ⟨266, "Move", false, 0, false⟩,
  ⟨267, "SetLocation", false, 0, false⟩,
  ⟨272, "SetOwner", false, 0, false⟩,
  ⟨275, "<<", false, 22, true⟩,
  ⟨276, ">>", false, 22, true⟩,
  ⟨277, "Trace", false, 0, false⟩,
  ⟨278, "Spawn", false, 0, false⟩,
  ⟨279, "Destroy", false, 0, false⟩,
  ⟨280, "SetTimer", false, 0, false⟩,
  ⟨281, "IsInState", false, 0, false⟩,
  ⟨282, "IsAnimating", false, 0, false⟩,
  ⟨283, "SetCollisionSize", false, 0, false⟩,
  ⟨284, "GetStateName", false, 0, false⟩,
  ⟨287, "*", false, 16, true⟩,
  ⟨288, "*", false, 16, true⟩,
  ⟨289, "/", false, 16, true⟩,
  ⟨290, "*=", false, 34, true⟩,
  ⟨291, "/=", false, 34, true⟩,
  ⟨294, "TweenAnim", false, 0, false⟩,
  ⟨296, "*", false, 16, true⟩,
  ⟨297, "*=", false, 34, true⟩,
  ⟨298, "SetBase", false, 0, false⟩,
  ⟨299, "SetRotation", false, 0, false⟩,
  ⟨300, "MirrorVectorByNormal", false, 0, false⟩,
  ⟨301, "FinishInterpolation", false, 0, false⟩,
  ⟨303, "IsA", false, 0, false⟩,
  ⟨304, "AllActors", false, 0, false⟩,
  ⟨305, "ChildActors", false, 0, false⟩,
  ⟨306, "BasedActors", false, 0, false⟩,
  ⟨307, "TouchingActors", false, 0, false⟩,
  ⟨308, "ZoneActors", false, 0, false⟩,
  ⟨309, "TraceActors", false, 0, false⟩,
  ⟨310, "RadiusActors", false, 0, false⟩,
  ⟨311, "VisibleActors", false, 0, false⟩,
  ⟨312, "VisibleCollidingActors", false, 0, false⟩,
  ⟨313, "DynamicActors", false, 0, false⟩,
  ⟨314, "Warp", false, 0, false⟩,
  ⟨315, "UnWarp", false, 0, false⟩,
  ⟨316, "+", false, 20, true⟩,
  ⟨317, "-", false, 20, true⟩,
  ⟨318, "+=", false, 34, true⟩,
  ⟨319, "-=", false, 34, true⟩,
  ⟨320, "RotRand", false, 0, false⟩,
  ⟨321, "CollidingActors", false, 0, false⟩,
  ⟨400, "-", true, 0, true⟩,
  ⟨401, "*", false, 16, true⟩,
  ⟨402, "*", false, 16, true⟩,
  ⟨403, "/", false, 16, true⟩,
  ⟨404, "+", false, 20, true⟩,
  ⟨405, "-", false, 20, true⟩,
  ⟨406, "+=", false, 34, true⟩,
  ⟨407, "-=", false, 34, true⟩,
  ⟨408, "<", false, 24, true⟩,
  ⟨409, ">", false, 24, true⟩,
  ⟨410, "<=", false, 24, true⟩,
  ⟨411, ">=", false, 24, true⟩,
  ⟨412, "==", false, 24, true⟩,
  ⟨413, "!=", false, 26, true⟩,
  ⟨464, "StrLen", false, 0, false⟩,
  ⟨465, "DrawText", false, 0, false⟩,
  ⟨466, "DrawTile", false, 0, false⟩,
  ⟨467, "DrawActor", false, 0, false⟩,
  ⟨468, "DrawTileClipped", false, 0, false⟩,
  ⟨469, "DrawTextClipped", false, 0, false⟩,
  ⟨470, "TextSize", false, 0, false⟩,
  ⟨480, "DrawPortal", false, 0, false⟩,
  ⟨500, "MoveTo", false, 0, false⟩,
  ⟨502, "MoveToward", false, 0, false⟩,
  ⟨508, "FinishRotation", false, 0, false⟩,
  ⟨510, "WaitToSeeEnemy", false, 0, false⟩,
  ⟨512, "MakeNoise", false, 0, false⟩,
  ⟨514, "LineOfSightTo", false, 0, false⟩,
  ⟨517, "FindPathToward", false, 0, false⟩,
  ⟨518, "FindPathTo", false, 0, false⟩,
  ⟨520, "actorReachable", false, 0, false⟩,
  ⟨521, "pointReachable", false, 0, false⟩,
  ⟨523, "EAdjustJump", false, 0, false⟩,
  ⟨524, "FindStairRotation", false, 0, false⟩,
  ⟨525, "FindRandomDest", false, 0, false⟩,
  ⟨526, "PickWallAdjust", false, 0, false⟩,
  ⟨527, "WaitForLanding", false, 0, false⟩,
  ⟨529, "AddController", false, 0, false⟩,
  ⟨530, "RemoveController", false, 0, false⟩,
  ⟨531, "PickTarget", false, 0, false⟩,
  ⟨532, "PlayerCanSeeMe", false, 0, false⟩,
  ⟨533, "CanSee", false, 0, false⟩,
  ⟨534, "PickAnyTarget", false, 0, false⟩,
  ⟨536, "SaveConfig", false, 0, false⟩,
  ⟨539, "GetMapName", false, 0, false⟩,
  ⟨540, "FindBestInventoryPath", false, 0, false⟩,
  ⟨544, "ResetKeyboard", false, 0, false⟩,
  ⟨545, "GetNextSkin", false, 0, false⟩,
  ⟨546, "UpdateURL", false, 0, false⟩,
  ⟨547, "GetURLMap", false, 0, false⟩,
  ⟨548, "FastTrace", false, 0, false⟩,
  ⟨549, "-", false, 20, true⟩,
  ⟨550, "*", false, 16, true⟩,
  ⟨551, "+", false, 20, true⟩,
  ⟨552, "*", false, 16, true⟩,
  ⟨3969, "MoveSmooth", false, 0, false⟩,
  ⟨3970, "SetPhysics", false, 0, false⟩,
  ⟨3971, "AutonomousPhysics", false, 0, false⟩]

/-- The table of the stock natives. -/
def NativeTable.stock : NativeTable :=
  .ofList stockNatives .none

end UnrealPackage.Script

import Jsregexp.Library.Iteration
import Jsregexp.Library.Backtracking
import Jsregexp.Library.Repetition
import Jsregexp.Library.Offsets
import Jsregexp.Library.Segments
import Jsregexp.JsStringText
import Jsregexp.LuaString
import Jsregexp.ExecSpans
import Jsregexp.ExecUnset
import Jsregexp.JsStringRepresents
import Jsregexp.JsStringWellFormed
import Jsregexp.ExecStart
import Jsregexp.Substitution
import Jsregexp.RejectedSubject
import Jsregexp.ReplaceAll
import Jsregexp.ReplaceMatches
import Jsregexp.Split
import Jsregexp.SplitPieces
import Jsregexp.SplitSeparators
import Jsregexp.MatchAll
import Jsregexp.Recompile
import Jsregexp.GroupNames
import Jsregexp.ExecWidth
import Jsregexp.MatchStack
import Jsregexp.Escape
import Jsregexp.NamedGroups
import Jsregexp.EscapeCompile
import Jsregexp.AllocCount
import Jsregexp.Libregexp.FirstMatch
import Jsregexp.EngineMatches
import Jsregexp.ExecFirstMatch
import Jsregexp.ClassMatches

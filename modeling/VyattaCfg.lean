import VyattaCfg.Library.Bytes
import VyattaCfg.Library.Words
import VyattaCfg.Library.Argz
import VyattaCfg.Library.CommonPrefix
import VyattaCfg.Library.Dirname
import VyattaCfg.Library.Envz
import VyattaCfg.Library.Fields
import VyattaCfg.Library.Flex
import VyattaCfg.Library.Grammar
import VyattaCfg.Library.Lines
import VyattaCfg.Library.Regex
import VyattaCfg.Library.WordShape
import VyattaCfg.Library.LongestMatch
import VyattaCfg.Library.Outcome
import VyattaCfg.Library.Percent
import VyattaCfg.Library.Positional
import VyattaCfg.Library.Precedence
import VyattaCfg.Library.Runs
import VyattaCfg.Library.Scanf
import VyattaCfg.Library.ShellWords
import VyattaCfg.Library.ShellQuotes
import VyattaCfg.Library.ShellAssignments
import VyattaCfg.Library.ShellReading
import VyattaCfg.Library.ShortCircuit
import VyattaCfg.Library.Trie
import VyattaCfg.Client.Json
import VyattaCfg.Client.Error
import VyattaCfg.Client.Response
import VyattaCfg.Client.Request
import VyattaCfg.Client.Api
import VyattaCfg.Client.UriParser
import VyattaCfg.Client.Cpath
import VyattaCfg.Client.Configd
import VyattaCfg.Client.Ctemplate
import VyattaCfg.Client.StdMap
import VyattaCfg.Client.Completion
import VyattaCfg.Client.Calls
import VyattaCfg.Client.CfgClient
import VyattaCfg.Client.CompletionShell
import VyattaCfg.Client.CompletionEntries
import VyattaCfg.Client.Connection
import VyattaCfg.Client.CpathRoundTrip
import VyattaCfg.Client.ErrorList
import VyattaCfg.Client.SilentReplies
import VyattaCfg.Client.ErrorText
import VyattaCfg.Client.FailureText
import VyattaCfg.Client.MakePaths
import VyattaCfg.Client.ResponseFree
import VyattaCfg.Client.ReadLoop
import VyattaCfg.Client.SessionId
import VyattaCfg.ShellApi.EditLevel
import VyattaCfg.ShellApi.EditCommands
import VyattaCfg.ShellApi.ListNodes
import VyattaCfg.Compat.PathEncoders
import VyattaCfg.Compat.Cstore
import VyattaCfg.Compat.Deletion
import VyattaCfg.Compat.EscapeBuffers
import VyattaCfg.Cliexec.AddressPatterns
import VyattaCfg.Cliexec.VarRef
import VyattaCfg.Cliexec.CstoreC
import VyattaCfg.Cliexec.EvalVa
import VyattaCfg.Cliexec.ScanIpv6
import VyattaCfg.Cliexec.ValCmp
import VyattaCfg.Cliexec.CliVal
import VyattaCfg.Cliexec.World
import VyattaCfg.Cliexec.ExpandString
import VyattaCfg.Cliexec.Char2val
import VyattaCfg.Cliexec.Node
import VyattaCfg.Cliexec.CheckSyn
import VyattaCfg.Cliexec.CliParse
import VyattaCfg.Cliexec.CliDef
import VyattaCfg.Cliexec.ExpParser
import VyattaCfg.Cliexec.TemplateGrammar
import VyattaCfg.Cliexec.ExpGrammar
import VyattaCfg.Cliexec.TemplateTrees
import VyattaCfg.Cliexec.Meaning
import VyattaCfg.Cliexec.SyntaxErrors
import VyattaCfg.Cliexec.Script
import VyattaCfg.Cliexec.TemplateParser
import VyattaCfg.Cliexec.DefLexer
import VyattaCfg.Cliexec.Ipv6Literal
import VyattaCfg.Cliexec.Ipv6Accepted
import VyattaCfg.Cliexec.ValueTexts
import VyattaCfg.Cliexec.TokenTexts
import VyattaCfg.Cliexec.FieldTexts
import VyattaCfg.Cliexec.ScannerRuns
import VyattaCfg.Cliexec.ActionTexts
import VyattaCfg.Cliexec.Ipv6Grammar
import VyattaCfg.Cliexec.Ipv6Scanning
import VyattaCfg.Cliexec.Ipv6Spread
import VyattaCfg.Cliexec.Membership
import VyattaCfg.Cliexec.Ipv6Order
import VyattaCfg.Cliexec.NumericOrder
import VyattaCfg.Cliexec.AddressTexts
import VyattaCfg.Cliexec.Ascend
import VyattaCfg.Cliexec.CanCompare
import VyattaCfg.Cliexec.CanonicalValues
import VyattaCfg.Cliexec.CfgPathKept
import VyattaCfg.Cliexec.TypeCheck
import VyattaCfg.Cliexec.Returns
import VyattaCfg.Cliexec.Verdict
import VyattaCfg.Cliexec.Evaluation
import VyattaCfg.Cliexec.Consistency
import VyattaCfg.Cliexec.RefCalls
import VyattaCfg.Cliexec.VarRefPaths
import VyattaCfg.Cliexec.OperandValues
import VyattaCfg.Cliexec.CountCompare
import VyattaCfg.Cliexec.Effects
import VyattaCfg.Cliexec.ExpansionBuffer
import VyattaCfg.Cliexec.FailureReports
import VyattaCfg.Cliexec.History
import VyattaCfg.Cliexec.LexerBuffers
import VyattaCfg.Cliexec.LiteralTexts
import VyattaCfg.Cliexec.LineTexts
import VyattaCfg.Cliexec.Multiplicity
import VyattaCfg.Cliexec.Wildcard
import VyattaCfg.Cliexec.OriginalPath
import VyattaCfg.Cliexec.PairwiseCompare
import VyattaCfg.Cliexec.SelfReference
import VyattaCfg.Cliexec.SystemOut
import VyattaCfg.Cliexec.SystemOutcomes
import VyattaCfg.Cliexec.TemplateLanguage
import VyattaCfg.Cliexec.TemplateText
import VyattaCfg.Cliexec.TextLines
import VyattaCfg.Cliexec.ValueLists
import VyattaCfg.Perl.ApplySingleQuote
import VyattaCfg.Perl.CompareValueLists
import VyattaCfg.Perl.EnumerateBranch
import VyattaCfg.Perl.FindValues
import VyattaCfg.Perl.PathPieces
import VyattaCfg.Perl.GenSets
import VyattaCfg.Perl.Hierarchy
import VyattaCfg.Perl.Levels

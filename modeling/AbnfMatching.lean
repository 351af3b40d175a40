import AbnfMatching.Comparison
import AbnfMatching.Element.Folding
import AbnfMatching.Element.Normal
import AbnfMatching.Language.Reachability
import AbnfMatching.Octets.Runs
import AbnfMatching.Service
import AbnfMatching.Proofs.Inquiry
import AbnfMatching.Proofs.Replies
import AbnfMatching.Proofs.Spans
import AbnfMatching.Proofs.Unfolding
import AbnfMatching.Proofs.EndSets
import AbnfMatching.Proofs.LevelBounds
import AbnfMatching.Proofs.Places
import AbnfMatching.Proofs.Visits
import AbnfMatching.Proofs.GreedyUnfolding
import AbnfMatching.Proofs.Soundness
import AbnfMatching.Proofs.Verdicts
import AbnfMatching.Proofs.Exactness
import AbnfMatching.Proofs.Search
import AbnfMatching.Proofs.Simulation
import AbnfMatching.Proofs.Omissions
import AbnfMatching.Proofs.GreedyAmongAll
import AbnfMatching.Proofs.Grafts
import AbnfMatching.Proofs.Copies
import AbnfMatching.Proofs.RulesAsValues
import AbnfMatching.Proofs.Faults
import AbnfMatching.Proofs.GreedyRange
import AbnfMatching.Proofs.Calls
import AbnfMatching.Proofs.EndingRounds
import AbnfMatching.Proofs.Nesting
import AbnfMatching.Proofs.GreedyLevels
import AbnfMatching.Proofs.Parallels
import AbnfMatching.Proofs.MatchesInStep
import AbnfMatching.Proofs.RaisedLimits
import AbnfMatching.Proofs.MissingRules
import AbnfMatching.Proofs.ReachableRules
import AbnfMatching.Proofs.TerminalTexts
import AbnfMatching.Proofs.ElementTexts
import AbnfMatching.Proofs.UniqueReading
import AbnfMatching.Proofs.RenderedLanguage
import AbnfMatching.Proofs.Accompaniments
import AbnfMatching.Proofs.Confinement
import AbnfMatching.Proofs.Embeddings
import AbnfMatching.Proofs.EmbeddedMatches
import AbnfMatching.Proofs.GreedyEmbeddings
import AbnfMatching.Proofs.EmbeddedOutcomes
import AbnfMatching.Proofs.Surroundings
import AbnfMatching.Proofs.LetterCase
import AbnfMatching.Proofs.FixedWidths
import AbnfMatching.Proofs.CoreRules
import AbnfMatching.Proofs.CoreService
import AbnfMatching.Proofs.Additions
import AbnfMatching.Proofs.BeyondInput
import AbnfMatching.Proofs.TextMeanings
import AbnfMatching.Proofs.GreedyRounds
import AbnfMatching.Proofs.Heights
import AbnfMatching.Proofs.ReferenceListings
import AbnfMatching.Proofs.CountedOptions
import AbnfMatching.Proofs.QuotedTexts
import AbnfMatching.Proofs.RecordedEvaluations
import AbnfMatching.Proofs.NestedTraces
import AbnfMatching.Proofs.FaithfulTraces
import AbnfMatching.Proofs.RepetitionRounds
import AbnfMatching.Proofs.CountedRounds
import AbnfMatching.Proofs.Deliveries
import AbnfMatching.Proofs.Bookkeeping
import AbnfMatching.Proofs.BooksInOrder

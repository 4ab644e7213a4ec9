import LexiGo.ReadCommitted.RowStatements
import LexiGo.Account.AccountSchema
import LexiGo.Account.AccountRepository
import LexiGo.Account.AccountService
import LexiGo.Account.AccountMachine
import LexiGo.Account.AccountRefinement
import LexiGo.Account.AccountRuns
import LexiGo.Account.FamilyRevocation
import LexiGo.Account.CredentialClosure
import LexiGo.Account.RecoveryTokens
import LexiGo.Learning.AnswerJudgement
import LexiGo.Learning.Scheduler
import LexiGo.Learning.LearningSchema
import LexiGo.Learning.LessonRepository
import LexiGo.Learning.CustomWords
import LexiGo.Learning.LearningService
import LexiGo.Learning.LearningContract
import LexiGo.Learning.LearningRefinement
import LexiGo.Account.FamilyLineage
import LexiGo.Learning.LessonComposer
import LexiGo.StepHistories
import LexiGo.Words.CustomVocabulary
import LexiGo.Words.WordCatalog
import LexiGo.Words.CatalogSources
import LexiGo.Words.SourceAgreement
import LexiGo.Learning.LessonSelection
import LexiGo.Learning.LessonConstraints
import LexiGo.ReadCommitted.CommitNotes
import LexiGo.Moderation.ModerationRepository
import LexiGo.Moderation.ModerationService
import LexiGo.Learning.AnswerCandidates
import LexiGo.Moderation.ModerationMachine
import LexiGo.Moderation.ModerationRefinement
import LexiGo.Moderation.ModerationRuns
import LexiGo.Moderation.ShownContent
import LexiGo.Moderation.TaughtAnswers
import LexiGo.Learning.ReviewPaths
import LexiGo.Relational.ReferentialActions
import LexiGo.Deletion.DeletionSchema
import LexiGo.Deletion.DeletionCascade
import LexiGo.Deletion.AccountDeletion
import LexiGo.Client.LearningItems
import LexiGo.Client.NormalForms
import LexiGo.Client.JudgeAgreement
import LexiGo.ReadCommitted.WiderSchema
import LexiGo.Learning.ReviewEmbedding
import LexiGo.Scenarios.ScenarioSchema
import LexiGo.Scenarios.ScenarioRepository
import LexiGo.Scenarios.ScenarioService
import LexiGo.Arithmetic.Binary64
import LexiGo.Learning.SchedulerArithmetic
import LexiGo.Learning.SchedulerRuns
import LexiGo.Learning.RatingOrder
import LexiGo.Learning.ScheduleHorizon
import LexiGo.BlockOrder
import LexiGo.Learning.LessonSpread
import LexiGo.Learning.LessonQuota
import LexiGo.Learning.LearningSoundness
import LexiGo.Learning.LearningRuns
import LexiGo.Client.ReviewOutbox
import LexiGo.Learning.LessonHttp
import LexiGo.Learning.DefiniteAnswers
import LexiGo.Client.OutboxProgress
import LexiGo.Learning.AnswerNormalForm
import LexiGo.Scenarios.TermPresence
import LexiGo.Learning.AnswerSpecification
import LexiGo.OrderedPages
import LexiGo.Words.CatalogPages
import LexiGo.Words.LiteralSearch
import LexiGo.Client.OutboxTabs
import LexiGo.Client.SyncedReviews
import LexiGo.Words.GlossaryRoundTrip
import LexiGo.Text.Base64Url
import LexiGo.Text.CivilTime
import LexiGo.Text.DecimalDigits
import LexiGo.Text.JsonText
import LexiGo.Text.Timestamp
import LexiGo.Moderation.CursorText
import LexiGo.KeysetPages
import LexiGo.Moderation.ListedPages
import LexiGo.Moderation.CursorWalk
import LexiGo.ReadCommitted.FrameRule
import LexiGo.Scenarios.ScenarioMachine
import LexiGo.Scenarios.ScenarioRefinement
import LexiGo.Scenarios.ScenarioRuns
import LexiGo.Scenarios.AttemptOrder
import LexiGo.DistinctKeys
import LexiGo.Learning.DiagnosticSelection
import LexiGo.Learning.ProgressStreaks
import LexiGo.Text.UrlEncoded
import LexiGo.Text.UrlReference
import LexiGo.Client.BuildGuard
import LexiGo.ClientValues
import LexiGo.Client.Navigation
import LexiGo.Client.NavigationHistory
import LexiGo.Client.LessonResult
import LexiGo.Client.RequestCache
import LexiGo.Client.PronunciationRecorder
import LexiGo.Account.OneTimeTokens
import LexiGo.CountedRows
import LexiGo.Learning.LearningProgress
import LexiGo.Learning.ProgressConservation
import LexiGo.Client.ProgressPayload
import LexiGo.Client.SessionBootstrap
import LexiGo.WaitingLines
import LexiGo.Client.AnswerOptions
import LexiGo.Client.FeedbackQueue
import LexiGo.Client.CalendarText
import LexiGo.Client.TimeZoneTransitions
import LexiGo.Learning.RequestNotes
import LexiGo.Learning.LessonOrder
import LexiGo.Learning.LoadableLessons
import LexiGo.Learning.ReusedKeys
import LexiGo.ReadCommitted.GuidedRuns
import LexiGo.Scenarios.StartedAttempts
import LexiGo.Onboarding.OnboardingRepository
import LexiGo.Onboarding.OnboardingMachine
import LexiGo.ReadCommitted.ConfinedWrites
import LexiGo.Learning.LearningWrites
import LexiGo.Onboarding.DiagnosticItems
import LexiGo.Onboarding.OnboardingRefinement
import LexiGo.Onboarding.DiagnosticRefinement
import LexiGo.Onboarding.MarkedDiagnostic
import LexiGo.Onboarding.OnboardingRuns
import LexiGo.Client.OnboardingPayload
import LexiGo.Client.RefreshLock
import LexiGo.Platform.SchemaMigrations
import LexiGo.Platform.RateLimiter

import Ocfs2Coverage.Python.Text
import Ocfs2Coverage.Python.Integer
import Ocfs2Coverage.Python.Regex
import Ocfs2Coverage.Python.Dict
import Ocfs2Coverage.Python.Runtime
import Ocfs2Coverage.Propagation
import Ocfs2Coverage.Source.Classifier
import Ocfs2Coverage.Source.Blocks
import Ocfs2Coverage.Source.BlockLaws
import Ocfs2Coverage.Source.Kinds
import Ocfs2Coverage.Hits.Smoothing
import Ocfs2Coverage.Hits.Closure
import Ocfs2Coverage.Hits.Files
import Ocfs2Coverage.Trace.Lcov
import Ocfs2Coverage.Trace.Attribution
import Ocfs2Coverage.Profiles.Tables
import Ocfs2Coverage.Profiles.Synthetic
import Ocfs2Coverage.Profiles.Flipping
import Ocfs2Coverage.Profiles.Target
import Ocfs2Coverage.Report.Json
import Ocfs2Coverage.Report.Tree
import Ocfs2Coverage.Report.Emit
import Ocfs2Coverage.Report.Load
import Ocfs2Coverage.Report.Generate
import Ocfs2Coverage.Report.RoundTrip
import Ocfs2Coverage.Report.Published
import Ocfs2Coverage.Report.Merge
import Ocfs2Coverage.Report.Union
import Ocfs2Coverage.Report.Settled
import Ocfs2Coverage.Report.NodeBound
import Ocfs2Coverage.Report.Regenerate
import Ocfs2Coverage.Hits.Gaps
import Ocfs2Coverage.Source.Heads
import Ocfs2Coverage.Hits.Neighbours
import Ocfs2Coverage.Hits.Arms
import Ocfs2Coverage.Hits.Bodies
import Ocfs2Coverage.CLexer
import Ocfs2Coverage.Source.Comments
import Ocfs2Coverage.Source.CodeView
import Ocfs2Coverage.Hits.Comments
import Ocfs2Coverage.Source.LineBreaks
import Ocfs2Coverage.Overwriting
import Ocfs2Coverage.Report.Records
import Ocfs2Coverage.Python.Search
import Ocfs2Coverage.Trace.Recovery
import Ocfs2Coverage.Report.Reload
import Ocfs2Coverage.Artifacts.Files
import Ocfs2Coverage.RunTests.Custom
import Ocfs2Coverage.RunTests.Verdict
import Ocfs2Coverage.Absorbing
import Ocfs2Coverage.Profiles.Quotas
import Ocfs2Coverage.Runs
import Ocfs2Coverage.Kernel
import Ocfs2Coverage.Sharing
import Ocfs2Coverage.Majority
import Ocfs2Coverage.Cluster.Quorum
import Ocfs2Coverage.Cluster.Decision
import Ocfs2Coverage.Syndrome
import Ocfs2Coverage.Driver.Hamming
import Ocfs2Coverage.Driver.Blockcheck
import Ocfs2Coverage.Driver.ExtentMap
import Ocfs2Coverage.Driver.FileBlocks
import Ocfs2Coverage.Driver.VirtBlocks
import Ocfs2Coverage.Dlm.Resource
import Ocfs2Coverage.Dlm.Master
import Ocfs2Coverage.Dlm.Thread
import Ocfs2Coverage.Dlm.Messages
import Ocfs2Coverage.Dlm.Cluster
import Ocfs2Coverage.Dlm.Phases
import Ocfs2Coverage.Dlm.Protocol
import Ocfs2Coverage.Dlm.Conversation
import Ocfs2Coverage.Dlm.Exclusion
import Ocfs2Coverage.Dlm.Notes
import Ocfs2Coverage.Dlm.Wakeup
import Ocfs2Coverage.Dlm.ValueBlock
import Ocfs2Coverage.Dlm.Coherence
import Ocfs2Coverage.Dlm.Assertions
import Ocfs2Coverage.Dlm.Service

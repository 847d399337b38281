import Aloe.Oesr.SerializedWhole
import Aloe.Oesr.NodDispatcherAddress
import Aloe.Manager.Admission
import Aloe.Crm.BandwidthFeasibility
import Aloe.Oesr.CommandInterleaving
import Aloe.Oesr.StepCommands
import Aloe.Manager.StatusAgreement
import Aloe.Manager.SlotUniqueness
import Aloe.Oesr.FailedLoad
import Aloe.Manager.UpdateAtomicity
import Aloe.Manager.PipelineModes
import Aloe.Oesr.InitTable
import Aloe.Oesr.InitConvergence
import Aloe.Rtdal.TslotRun
import Aloe.Rtdal.Time
import Aloe.Rtdal.Periodic
import Aloe.Rtdal.Sync
import Aloe.Modrep.CtrlRatematching
import Aloe.Modrep.Ratematching
import Aloe.Modrep.CfiDecoding
import Aloe.Modrep.Turbodecoder
import Aloe.Oesr.CtrlSend
import Aloe.Oesr.VarRegistry
import Aloe.Oesr.VarValues
import Aloe.Oesr.CtrlRetry
import Aloe.Oesr.CtrlAttachment
import Aloe.Oesr.PacketBuffer
import Aloe.Modrep.DciFormats
import Aloe.Modrep.PdcchAddressing
import Aloe.Modrep.Grid.RefSeparation
import Aloe.Modrep.Grid.PdschSizes
import Aloe.Manager.ParserVariables
import Aloe.Manager.ParserBounds
import Aloe.Modrep.Mux
import Aloe.Modrep.CyclicPrefix
